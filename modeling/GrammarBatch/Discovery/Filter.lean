import GrammarBatch.Config.Basic

/-!
# Which files are grammars to compile

A `Filter` judges a file by its path below the source directory: some include must match it, and no
exclude. The imports directory is always excluded, and version control data and editor backups are unless
the configuration asks for them.
-/

namespace GrammarBatch

/-- The judgement on relative paths. -/
structure Filter where
  includes : PatternSet
  excludes : PatternSet
deriving DecidableEq

namespace Filter

/-- The include that stands in where none is configured. -/
def defaultInclude : String := "**/*.g"

/-- The exclude that keeps imported grammars from being compiled on their own. -/
def importsExclude : String := "imports/**"

/-- The excludes for editor backups, lock files and version control data. -/
def defaultExcludes : List String :=
  ["**/*~", "**/#*#", "**/.#*", "**/%*%", "**/._*", "**/.DS_Store",
    "**/CVS", "**/CVS/**", "**/.cvsignore",
    "**/.svn", "**/.svn/**",
    "**/.git", "**/.git/**", "**/.gitattributes", "**/.gitignore", "**/.gitmodules",
    "**/.hg", "**/.hg/**", "**/.hgignore",
    "**/.bzr", "**/.bzr/**", "**/.bzrignore"]

/-- The includes in force. -/
def effectiveIncludes (includes : PatternSet) : PatternSet :=
  if includes.isEmpty then .ofList [defaultInclude] else includes

/-- The excludes in force. -/
def effectiveExcludes (excludes : PatternSet) (withDefaults : Bool) : PatternSet :=
  let reserved := excludes.insert importsExclude
  if withDefaults then reserved.insertAll defaultExcludes else reserved

/-- The filter for the given patterns. -/
def of (includes excludes : PatternSet) (withDefaults : Bool) : Filter where
  includes := effectiveIncludes includes
  excludes := effectiveExcludes excludes withDefaults

/-- The filter of a configuration. -/
def ofConfig (c : BuildConfig) : Filter := of c.includes c.excludes c.defaultExcludes

/-- Whether the file at the relative path is wanted. -/
def accepts (f : Filter) (relative : String) : Bool :=
  f.includes.accepts relative && !f.excludes.accepts relative

end Filter

end GrammarBatch
