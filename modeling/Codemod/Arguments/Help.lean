import Codemod.Arguments

/-!
# Help and version texts
-/

namespace Codemod.Arguments

def intro : List String :=
  ["prismafix - Replace Prisma enum imports with string literals and annotate untyped callbacks",
   "",
   "Usage: prismafix [OPTIONS] [PATH]",
   ""]

def longUsage : List String :=
  ["Arguments:",
   "  [PATH]",
   "          Directory to rewrite (defaults to the configured root, `src/app/api`)",
   "",
   "Options:",
   "      --config <CONFIG>",
   "          Use this configuration file instead of searching for one",
   "",
   "      --ext <EXTENSIONS>",
   "          File extensions to rewrite, without the dot (repeatable; overrides config)",
   "",
   "      --exclude-folder <EXCLUDE_FOLDERS>",
   "          Folders to skip during traversal (added to config and defaults)",
   "",
   "      --respect-gitignore",
   "          Skip files ignored by git",
   "",
   "      --only <ONLY>",
   "          Run a single rule group",
   "",
   "          Possible values:",
   "          - enums: Enum import removal and enum token substitution",
   "          - types: Callback parameter annotation",
   "",
   "      --dry-run",
   "          Report what would change without writing any file",
   "",
   "  -v, --verbose",
   "          Enable verbose output for debugging (config, root, per-rule edit counts)",
   "",
   "  -h, --help",
   "          Print help (see a summary with '-h')",
   "",
   "  -V, --version",
   "          Print version",
   ""]

def shortUsage : List String :=
  ["Arguments:",
   "  [PATH]  Directory to rewrite (defaults to the configured root, `src/app/api`)",
   "",
   "Options:",
   "      --config <CONFIG>",
   "          Use this configuration file instead of searching for one",
   "      --ext <EXTENSIONS>",
   "          File extensions to rewrite, without the dot (repeatable; overrides config)",
   "      --exclude-folder <EXCLUDE_FOLDERS>",
   "          Folders to skip during traversal (added to config and defaults)",
   "      --respect-gitignore",
   "          Skip files ignored by git",
   "      --only <ONLY>",
   "          Run a single rule group [possible values: enums, types]",
   "      --dry-run",
   "          Report what would change without writing any file",
   "  -v, --verbose",
   "          Enable verbose output for debugging (config, root, per-rule edit counts)",
   "  -h, --help",
   "          Print help (see more with '--help')",
   "  -V, --version",
   "          Print version",
   ""]

def configurationUsage : List String :=
  ["CONFIGURATION FILE (.prismafix.toml):",
   "  Create this file in your project root to set defaults.",
   "  A \"prismafix\" object in package.json is read when no .prismafix.toml exists.",
   "",
   "  [prismafix]",
   "  root = \"src/app/api\"           # Search root",
   "  extensions = [\"ts\"]            # File extensions to rewrite",
   "  exclude_folders = [\"generated\"] # Extra folders to skip",
   "  respect_gitignore = false       # Skip files ignored by git",
   "  module = \"@prisma/client\"      # Module whose enum imports are stripped",
   "  fallback_type = \"any\"          # Inserted type annotation",
   "",
   "  [prismafix.extra_enum_values]",
   "  ListingType = [\"FIXED\", \"AUCTION\"]"]

def helpText (long : Bool) : String :=
  String.join ((intro ++ (if long then longUsage else shortUsage) ++ configurationUsage).map (· ++ "\n"))

def version : String := "0.3.0"

def versionText : String := "prismafix " ++ version ++ "\n"

end Codemod.Arguments
