import CppScaffold.Text.Number
import CppScaffold.Text.Quoted

/-!
# What can go wrong

Every failure is a cause; the wording shown to the user is given once, by `message`.
-/

namespace CppScaffold

inductive ActionError where
  | notAHeader
  | noFunctionDeclaration
  | noFunctionDefinition
  | noFunction
  | noMemberVariable
  | noClass
  | noMatchingFile
  | noUndefinedFunctions
  | definitionExists
  | declarationExists
  | inlineElsewhere
  | constexprElsewhere
  | constevalElsewhere
  | templateElsewhere
  | delegatingWithOthers
  | unknownInitializer (name className : Text)
  | unknownAccessLevel (name : Text)
  | getterExists
  | setterExists
  | getterAndSetterExist
  | constMember
  | constMemberWithGetter
  | unknownOperands (className : Text) (names : List Text)
  | unknownOperatorKind (kind : Text)
  | unknownDefinitionLocation (location : Text)
  | linkedDefinitionMissing
  | linkedDeclarationMissing
  | notAMemberFunction
  | unknownDestination (destination : Text)
  | guardExists
  | notAnInclude
  | alreadyIncluded (file : Text)
  deriving DecidableEq, Repr

def ActionError.message : ActionError → Text
  | notAHeader => "This file is not a header file."
  | noFunctionDeclaration => "No function declaration detected."
  | noFunctionDefinition => "No function definition detected."
  | noFunction => "No function detected."
  | noMemberVariable => "No member variable detected."
  | noClass => "No class or struct detected."
  | noMatchingFile => "No matching source file was found."
  | noUndefinedFunctions => "No undefined functions found in this file."
  | definitionExists => "A definition for this function already exists."
  | declarationExists => "A declaration for this function already exists."
  | inlineElsewhere => "Inline functions must be defined in the file that they are declared."
  | constexprElsewhere => "Constexpr functions must be defined in the file that they are declared."
  | constevalElsewhere => "Consteval functions must be defined in the file that they are declared."
  | templateElsewhere =>
    "Unspecialized templates must be defined in the file that they are declared."
  | delegatingWithOthers => "A delegating constructor cannot be used with any other initializers."
  | unknownInitializer name className =>
    "'" ++ name ++ "' is not a base class or member variable of " ++ className ++ ['.']
  | unknownAccessLevel name => "Unknown access level '" ++ name ++ "'."
  | getterExists => "There already exists a getter."
  | setterExists => "There already exists a setter."
  | getterAndSetterExist => "There already exists a getter and setter."
  | constMember => "Const variables cannot be assigned after initialization."
  | constMemberWithGetter =>
    "Const variables cannot be assigned after initialization. There already exists a getter."
  | unknownOperands className names =>
    "Not a base class or member variable of " ++ className ++ ": "
      ++ List.intercalate ", " names
  | unknownOperatorKind kind =>
    "Unknown operator kind '" ++ kind
      ++ "'. Expected one of: equality, relational, stream_output"
  | unknownDefinitionLocation location =>
    "Unknown definition location '" ++ location ++ "'."
  | linkedDefinitionMissing => "The linked definition could not be found."
  | linkedDeclarationMissing => "The linked declaration could not be found."
  | notAMemberFunction => "Function is not a class member function."
  | unknownDestination destination =>
    "Unknown destination '" ++ destination
      ++ "'. Expected one of: matching_source_file, class"
  | guardExists => "This file already has a header guard."
  | notAnInclude => "This doesn't seem to be a valid include statement."
  | alreadyIncluded file => file ++ " is already included."

/-- Why an address of a document cannot be taken apart. -/
inductive UriError where
  | unbalancedHost
  | badAddress (host : Text)
  | bracketedIpv4
  | badFutureAddress
  | hostDelimiters (host : Text)
  deriving DecidableEq, Repr

def UriError.message : UriError → Text
  | unbalancedHost => "Invalid IPv6 URL"
  | badAddress host => Text.quoted host ++ " does not appear to be an IPv4 or IPv6 address"
  | bracketedIpv4 => "An IPv4 address cannot be in brackets"
  | badFutureAddress => "IPvFuture address is invalid"
  | hostDelimiters host =>
    "netloc '" ++ host ++ "' contains invalid characters under NFKC normalization"

inductive TemplateProblem where
  | danglingBackslash
  | noGroup
  | noGroupName
  | unclosedGroupName
  | badGroupName (name : Text)
  | noSuchGroup (number : Nat)
  | octalTooLarge (written : Text)
  | badEscape (letter : Char)
  deriving DecidableEq, Repr

def TemplateProblem.message : TemplateProblem → Text
  | danglingBackslash => "bad escape (end of pattern)"
  | noGroup => "missing <"
  | noGroupName => "missing group name"
  | unclosedGroupName => "missing >, unterminated name"
  | badGroupName name => "bad character in group name " ++ Text.quoted name
  | noSuchGroup number => "invalid group reference " ++ Text.ofNat number
  | octalTooLarge written =>
    "octal escape value " ++ written ++ " outside of range 0-0o377"
  | badEscape letter => "bad escape \\" ++ [letter]

inductive TemplateError where
  | malformed (problem : TemplateProblem) (offset : Nat)
  | unknownGroup (name : Text)
  deriving DecidableEq, Repr

/-- The message for the user about the given template: in a template of several lines the place is also given
by line and column. -/
def TemplateError.message (template : Text) : TemplateError → Text
  | malformed problem offset =>
    let before := template.take offset
    let column := (before.reverse.takeWhile (· != '\n')).length + 1
    problem.message ++ " at position " ++ Text.ofNat offset ++
      if template.contains '\n' then
        " (line " ++ Text.ofNat (before.count '\n' + 1) ++ ", column " ++ Text.ofNat column ++ [')']
      else []
  | unknownGroup name => "unknown group name " ++ Text.quoted name

inductive FileError where
  | missing (path : Text)
  | isDirectory (path : Text)
  | notDirectory (path : Text)
  | nameTooLong (path : Text)
  deriving DecidableEq, Repr

def FileError.message : FileError → Text
  | missing path => "[Errno 2] No such file or directory: " ++ Text.quoted path
  | isDirectory path => "[Errno 21] Is a directory: " ++ Text.quoted path
  | notDirectory path => "[Errno 20] Not a directory: " ++ Text.quoted path
  | nameTooLong path => "[Errno 36] File name too long: " ++ Text.quoted path

inductive Fault where
  | action (cause : ActionError)
  | signatureOfNonFunction (name : Text)
  | noParameters (name : Text)
  | missingField (name : Text)
  | notASymbolKind (shown : Text)
  | notAnAccessLevel (shown : Text)
  | notANumber (shown : Text)
  | numberTooLong (digits : Nat)
  | nanToInteger
  | infinityToInteger
  | template (text : Text) (cause : TemplateError)
  | uri (cause : UriError)
  | file (cause : FileError)
  | nulInPath
  | nestedTooDeeply (container : Text)
  | notAPair (index length : Nat)
  | numberTooLarge (text : Text)
  | textTooLong
  | unknownDocument (path : Text)
  | noSuchFile (path : Text)
  | unparsable (path : Text)
  | sourceClosed
  | wrongType (text : Text)
  | noOperation (text : Text)
  deriving DecidableEq, Repr

def Fault.message : Fault → Text
  | action cause => cause.message
  | signatureOfNonFunction name =>
    "Cannot construct a signature from non-function symbol '" ++ name ++ ['\'']
  | noParameters name => "Cannot find the parameters of function '" ++ name ++ ['\'']
  | missingField name => Text.quoted name
  | notASymbolKind shown => shown ++ " is not a valid SymbolKind"
  | notAnAccessLevel shown => shown ++ " is not a valid AccessLevel"
  | notANumber shown => "invalid literal for int() with base 10: " ++ shown
  | numberTooLong digits =>
    "Exceeds the limit (" ++ Text.ofNat Text.maxDigits
      ++ " digits) for integer string conversion: value has " ++ Text.ofNat digits
      ++ " digits; use sys.set_int_max_str_digits() to increase the limit"
  | nanToInteger => "cannot convert float NaN to integer"
  | infinityToInteger => "cannot convert float infinity to integer"
  | template text cause => cause.message text
  | uri cause => cause.message
  | file cause => cause.message
  | nulInPath => "embedded null byte"
  | nestedTooDeeply container =>
    "maximum recursion depth exceeded while decoding a JSON " ++ container
      ++ " from a unicode string"
  | notAPair index length =>
    "dictionary update sequence element #" ++ Text.ofNat index ++ " has length "
      ++ Text.ofNat length ++ "; 2 is required"
  | numberTooLarge text => text
  | textTooLong => []
  | unknownDocument path => path
  | noSuchFile path => "File '" ++ path ++ "' does not exist"
  | unparsable path => "Failed to parse " ++ path
  | sourceClosed => "cannot schedule new futures after shutdown"
  | wrongType text => text
  | noOperation text => text

abbrev Outcome := Except Fault

/-- What reads its surroundings and changes a state, which is kept even if it fails. -/
abbrev Action (ρ σ : Type) := ReaderT ρ (ExceptT Fault (StateM σ))

/-- The outcome of an action, and the state that it leaves. -/
def Action.execute {ρ σ α : Type} (a : Action ρ σ α) (w : ρ) (s : σ) : Outcome α × σ := (a.run w).run s

end CppScaffold
