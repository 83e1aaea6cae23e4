import Immittance.Text.Quoted

/-!
# What can be wrong with an expression

Each issue has a code and a message template with at most one slot for the offending text. A message
whose slot has no argument says so instead, with the template and the arguments it was given.
-/

set_option autoImplicit false

namespace Immittance

inductive Issue where
  | tokenEmpty
  | tokenNoSeparator
  | tokenEmptyKind
  | tokenInvalidNumber
  | tokenUnknownKind
  | tokenUnknownSpec
  | groupUnmatchedParen
  | groupTrailingChars
  | groupUnknownConnection
deriving DecidableEq, Repr

structure Template where
  before : String
  slot : Option String
  after : String

namespace Template

def text (t : Template) : List Char :=
  match t.slot with
  | none => t.before.toList ++ t.after.toList
  | some name => t.before.toList ++ '\x7b' :: name.toList ++ '\x7d' :: t.after.toList

end Template

namespace Issue

def all : List Issue :=
  [tokenEmpty, tokenNoSeparator, tokenEmptyKind, tokenInvalidNumber, tokenUnknownKind,
   tokenUnknownSpec, groupUnmatchedParen, groupTrailingChars, groupUnknownConnection]

def code : Issue → String
  | tokenEmpty => "TOKEN_EMPTY"
  | tokenNoSeparator => "TOKEN_NO_SEPARATOR"
  | tokenEmptyKind => "TOKEN_EMPTY_KIND"
  | tokenInvalidNumber => "TOKEN_INVALID_NUMBER"
  | tokenUnknownKind => "TOKEN_UNKNOWN_KIND"
  | tokenUnknownSpec => "TOKEN_UNKNOWN_SPEC"
  | groupUnmatchedParen => "GROUP_UNMATCHED_PAREN"
  | groupTrailingChars => "GROUP_TRAILING_CHARS"
  | groupUnknownConnection => "GROUP_UNKNOWN_CONNECTION"

def template : Issue → Template
  | tokenEmpty => ⟨"token is empty", none, ""⟩
  | tokenNoSeparator => ⟨"Expected format T:value, got '", some "token", "'"⟩
  | tokenEmptyKind => ⟨"Component type is missing before ':' in '", some "token", "'"⟩
  | tokenInvalidNumber => ⟨"Invalid numeric value: ", some "value", ""⟩
  | tokenUnknownKind => ⟨"Unknown component type: ", some "kind", ""⟩
  | tokenUnknownSpec => ⟨"Unknown component spec: ", some "token", ""⟩
  | groupUnmatchedParen => ⟨"Unmatched parenthesis in expression", none, ""⟩
  | groupTrailingChars => ⟨"Unexpected trailing characters: '", some "trailing", "'"⟩
  | groupUnknownConnection => ⟨"Unknown connection type: ", some "name", ""⟩

def ofCode? (s : String) : Option Issue := all.find? (·.code == s)

abbrev Arguments := List (String × List Char)

def showArguments (args : Arguments) : List Char :=
  let entry := fun (a : String × List Char) =>
    Text.quoted a.1.toList ++ [':', ' '] ++ Text.quoted a.2
  '\x7b' :: [',', ' '].intercalate (args.map entry) ++ ['\x7d']

def missing (i : Issue) (name : String) (args : Arguments) : List Char :=
  "Error formatting message for ".toList ++ i.code.toList ++ ": Missing key ".toList ++
    Text.quoted name.toList ++ ". Template: '".toList ++ i.template.text ++ "' Args: ".toList ++
    showArguments args

def message (i : Issue) (args : Arguments) : List Char :=
  let t := i.template
  match t.slot with
  | none => t.before.toList ++ t.after.toList
  | some name =>
    match args.lookup name with
    | some v => t.before.toList ++ v ++ t.after.toList
    | none => i.missing name args

end Issue

structure ParseError where
  issue : Issue
  details : List Char
  input : List Char
deriving DecidableEq, Repr

def Issue.error (i : Issue) (input : List Char) (args : Issue.Arguments) : ParseError :=
  ⟨i, i.message args, input⟩

end Immittance
