import Immittance.Calculation.Check
import Immittance.Calculation.Schema
import Immittance.Journal
import Immittance.Quantity.Hertz
import Immittance.Report
import Immittance.Yaml.Content

/-!
# Calculation files

A calculation file is a YAML text. Reading it gives requests, in the order of the file; the first
thing that is wrong with it is the answer instead. The file is blamed for errors of the kinds that are
expected of reading and of frequencies; any other error is passed on.

How texts are read, documents checked and frequencies understood is left to libraries, and with them
what letters the texts are made of. Those that come with this library are the standard. A document
is finite: one that contains itself is read as some finite document, or not at all.
-/

set_option autoImplicit false

namespace Immittance

open Letter

structure Libraries (α : Type) where
  read : List Nat → Except (Raised α) (Value α)
  validate : Validator α
  registry : Registry α

def Libraries.standard : Libraries Char := ⟨Yaml.read, Validator.standard, Registry.standard⟩

structure Request (α : Type := Char) where
  name : List α
  expression : List α
  frequency : Float
  source : List Char

inductive FileContent (α : Type := Char) where
  | absent
  | unreadable (e : Raised α)
  | bytes (bs : List Nat)
  | document (v : Value α)

structure CalculationFile (α : Type := Char) where
  path : List Char
  content : FileContent α

inductive FileFault (α : Type := Char) where
  | missing
  | forbidden (e : Raised α)
  | malformed (e : Raised α)
  | empty
  | notMapping
  | layout (found : Findings α)
  | frequency (name given : List α) (e : Raised α)
  /-- An error that is passed on as it was raised. -/
  | unexplained (e : Raised α)

structure FileError (α : Type := Char) where
  path : List Char
  fault : FileFault α

section
variable {α : Type}

namespace FileFault

def ofReading (e : Raised α) : FileFault α :=
  if e.isOne .permission then .forbidden e
  else if e.isOne .yaml then .malformed e
  else .unexplained e

def frequencyKinds : List ErrorKind := [.value, .type, .zeroDivision, .quantity]

def ofFrequency [Letter α] (name : List α) (given : Value α) (e : Raised α) : FileFault α :=
  if e.isAny frequencyKinds then
    match given.plain with
    | .ok s => .frequency name s e
    | .error e => .unexplained e
  else .unexplained e

end FileFault

namespace CalculationFile

def name (file : CalculationFile α) : List Char :=
  (file.path.reverse.takeWhile (· != '/')).reverse

def document (L : Libraries α) (file : CalculationFile α) : Except (FileFault α) (Value α) :=
  match file.content with
  | .absent => .error .missing
  | .unreadable e => .error (.ofReading e)
  | .document v => .ok v
  | .bytes bs => (L.read bs).mapError .ofReading

variable [Letter α]

def absentKey : FileFault α := .unexplained ⟨[.key], []⟩

def request (R : Registry α) (path : List Char) (v : Value α) : Except (FileFault α) (Request α) :=
  match v with
  | .map es =>
    match Value.get? (word "name") es, Value.get? (word "expression") es,
        Value.get? (word "frequency") es with
    | some (.text name), some (.text expression), some given =>
      match R.toHertz given with
      | .ok f => .ok ⟨name, expression, f, path⟩
      | .error e => .error (.ofFrequency name given e)
    | _, _, _ => .error absentKey
  | _ => .error absentKey

def requests (R : Registry α) (path : List Char) (es : List (Value α × Value α)) :
    Except (FileFault α) (List (Request α)) :=
  match Value.get? (word Schema.listField) es with
  | some (.list vs) => vs.mapM (request R path)
  | _ => .error absentKey

def readDocument (L : Libraries α) (path : List Char) :
    Value α → Except (FileFault α) (List (Request α))
  | .null => .error .empty
  | .map es => do
    let verdict ← (L.validate Schema.document es).mapError .unexplained
    if verdict.errors.isEmpty then requests L.registry path verdict.document
    else throw (.layout verdict.errors)
  | _ => .error .notMapping

def loadWith (L : Libraries α) (file : CalculationFile α) : Except (FileError α) (List (Request α)) :=
  (do readDocument L file.path (← file.document L)).mapError fun f => ⟨file.path, f⟩

def load (file : CalculationFile) : Except FileError (List Request) := file.loadWith .standard

def notes (file : CalculationFile) : List Record :=
  [⟨Level.debug, .loader, "CalculationFileParser initialized.".toList⟩,
   ⟨Level.info, .loader, "Loading calculation file: ".toList ++ file.path⟩] ++
  match file.load with
  | .ok requests =>
    [⟨Level.info, .loader, "Loaded ".toList ++ (toString requests.length).toList ++
      " calculation(s) from ".toList ++ file.name⟩]
  | .error _ => []

end CalculationFile

/-! ## What is said about a file -/

namespace FileError

variable [Letter α]

def details? (e : FileError α) : Option (List α) :=
  match e.fault with
  | .missing => some (word "Calculation file not found at path: " ++ spell e.path)
  | .forbidden x => some (word "Permission denied when trying to read file: " ++ x.message)
  | .malformed x => some (word "Invalid YAML syntax: " ++ x.message)
  | .empty => some (word "The YAML file is empty or contains no valid content.")
  | .notMapping => some (word "The root of the YAML file must be a dictionary (mapping).")
  | .frequency name given x =>
    some (word "Calculation '" ++ name ++ word "' has an invalid frequency '" ++ given ++
      word "': " ++ x.message)
  | .layout _ | .unexplained _ => none

def message (e : FileError α) : Except (Raised α) (List α) :=
  match e.details? with
  | some details =>
    .ok (word "Error in calculation file '" ++ spell e.path ++ word "': " ++ details)
  | none =>
    match e.fault with
    | .layout found => do
      return word "Calculation file schema validation failed for '" ++ spell e.path ++
        word "':\n" ++ (← found.text "  - In field '")
    | .unexplained x => .ok x.message
    | _ => .ok []

def report? (e : FileError α) : Option (Except (Raised α) (Report α)) :=
  let report := fun (kind suggestion : String) (details : List α) =>
    (⟨word kind, details, word suggestion, [], spell e.path, [], none⟩ : Report α)
  match e.details?, e.fault with
  | some details, _ =>
    some (.ok (report "Calculation File Error"
      ("Ensure the file exists, is readable, contains valid YAML, and gives frequencies in Hz " ++
        "or as a frequency string such as '1 kHz'.") details))
  | none, .layout found =>
    some do
      let lines ← found.text "  - Field '"
      return report "Calculation File Schema Error"
        ("Each entry under 'calculations' needs a unique identifier 'name', a non-empty " ++
          "'expression' and a 'frequency'.")
        (word "The structure of the calculation file does not conform to the required schema.\n" ++
          word "See details for " ++ spell (toString found.length).toList ++
          word " issue(s) below:\n\n" ++ lines)
  | none, _ => none

end FileError

end

end Immittance
