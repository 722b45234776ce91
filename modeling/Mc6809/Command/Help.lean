/-!
# The help text
-/

namespace Mc6809.Command

/-- How the command is called. -/
def usage : String := "Usage: asm6809 [OPTIONS] INPUT_FILE\n"

/-- The help text after the usage line. -/
def helpLines : List String := [
  "",
  "  Assemble Motorola 6809 source code into raw machine code.",
  "",
  "  INPUT_FILE is the assembly source file to assemble.",
  "",
  "  Examples:",
  "      asm6809 hello.asm              # Outputs hello.bin",
  "      asm6809 hello.asm -o out.bin   # Specify output file",
  "      asm6809 -b '$E000' rom.asm     # Assemble for $E000",
  "      asm6809 -D DEBUG=1 hello.asm   # Define constant",
  "",
  "Options:",
  "  -o, --output FILE   Output binary file (default: input.bin)",
  "  -l, --listing FILE  Generate listing file",
  "  -s, --symbols FILE  Generate symbol file",
  "  -b, --base TEXT     Origin address, e.g. $4000, 0x4000 or 16384 (default:",
  "                      $4000)",
  "  -D, --define TEXT   Define constant (format: NAME=VALUE, can be repeated)",
  "  -v, --verbose       Verbose output",
  "  --version           Show the version and exit.",
  "  --help              Show this message and exit."]

def help : String :=
  usage ++ String.join (helpLines.map (· ++ "\n"))

end Mc6809.Command
