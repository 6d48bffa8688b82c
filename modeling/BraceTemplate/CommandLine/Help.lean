import BraceTemplate.CommandLine.Options

/-! What the command says about itself. -/
namespace BraceTemplate.CommandLine

def version : String := "wtemplate 1.0.0\n"

def usage : String := "Usage: wtemplate [OPTIONS] <TEMPLATE>\n"

def help : String :=
  "wtemplate: compile and render brace-node templates\n\n" ++ usage ++
  "\nArguments:\n" ++
  "  <TEMPLATE>  Path to the template file to render\n" ++
  "\nOptions:\n" ++
  "      --vars <FILE>    JSON or YAML file holding the template variables\n" ++
  "  -s, --stdin          Read template variables from stdin\n" ++
  "  -o, --output <FILE>  Write the rendered output to a file instead of stdout\n" ++
  "  -c, --config <FILE>  Engine configuration file. Defaults to wtemplate.json, " ++
  "wtemplate.yml or wtemplate.yaml in the template's directory when present\n" ++
  "  -v, --verbose        Enable verbose logging output\n" ++
  "  -h, --help           Print help\n" ++
  "  -V, --version        Print version\n"

/-- What is wrong with the arguments. -/
def Halt.message : Halt → String
  | .unknownArgument => "unexpected argument"
  | .invalidValue => "an option needs a value that is not empty"
  | .argumentConflict => "an option is given twice"
  | .tooManyValues => "an option takes no value"
  | .missingTemplate => "the template is missing"
  | .helpAsked => "help asked for"
  | .versionAsked => "version asked for"

end BraceTemplate.CommandLine
