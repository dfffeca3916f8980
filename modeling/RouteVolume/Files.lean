import RouteVolume.Path
import RouteVolume.RuleBook
import RouteVolume.Text.Utf8

namespace RouteVolume

/-- What a system says instead of doing what it is asked to do. -/
structure Refusal where
  number : Nat
  words : String
  deriving DecidableEq, Repr

namespace Refusal

def missing : Refusal := ⟨2, "No such file or directory"⟩

def denied : Refusal := ⟨13, "Permission denied"⟩

def notFolder : Refusal := ⟨20, "Not a directory"⟩

def folder : Refusal := ⟨21, "Is a directory"⟩

def tooLong : Refusal := ⟨36, "File name too long"⟩

def all : List Refusal := [missing, denied, notFolder, folder, tooLong]

/-- Does the refusal mean that a path leads to nothing? -/
def isAbsence (r : Refusal) : Bool := [2, 9, 20, 40].contains r.number

def text (r : Refusal) (path : String) : String :=
  "[Errno " ++ toString r.number ++ "] " ++ r.words ++ ": " ++ Quoted.text path

end Refusal

/-- Why a file has no bytes to give: its path is under a home that is not known, or it is refused as
it is looked up, or there is no regular file, or that is refused as it is opened and read. -/
inductive FileFault where
  | homeless
  | zeroByteUser
  | zeroByte
  | lookUp (refusal : Refusal)
  | irregular
  | opening (refusal : Refusal)
  deriving DecidableEq, Repr

def FileFault.message (path : String) : FileFault → String
  | .homeless => "Could not determine home directory."
  | .zeroByteUser | .zeroByte => "embedded null byte"
  | .lookUp refusal | .opening refusal => refusal.text path
  | .irregular => Refusal.folder.text path

abbrev Content := Except FileFault (List UInt8)

/-- Why no system looks a path up, whatever it holds. -/
def Path.refusal? (p : Path) : Option FileFault :=
  if p.text.contains '\x00' then some .zeroByte
  else if 4095 < p.text.utf8ByteSize then some (.lookUp .tooLong)
  else none

/-- Where a file is, and what it holds. -/
structure Found where
  path : Path
  content : Content

/-- What a machine knows: the homes of its users, the own one under the empty name, and what its files
hold. -/
structure Machine (m : Type → Type) where
  home : String → m (Option String)
  content : Path → m Content

def Machine.find {m : Type → Type} [Monad m] (machine : Machine m) (path : Path) : m Found :=
  match path.user? with
  | none => return ⟨path, ← machine.content path⟩
  | some user => do
    if user.contains '\x00' then return ⟨path, .error .zeroByteUser⟩
    let home ← machine.home user
    match home.bind path.under? with
    | none => return ⟨path, .error .homeless⟩
    | some path => return ⟨path, ← machine.content path⟩

inductive Entry where
  | file (bytes : List UInt8)
  | folder

/-- Everything below one folder, each entry under its components. A folder is there if it is
listed or if something is listed below it. -/
structure Files where
  entries : List (List String × Entry)

namespace Files

def entry? (f : Files) (components : List String) : Option Entry :=
  match f.entries.lookup components with
  | some entry => some entry
  | none =>
    if components.isEmpty || f.entries.any fun (other, _) => components.isPrefixOf other then
      some .folder
    else none

def isLongName (component : String) : Bool := 255 < component.utf8ByteSize

/-- Where components lead outside the outermost folder: the folders above it are there, and
nothing else is known to be. -/
def outside : List String → FileFault
  | [] => .irregular
  | component :: rest =>
    if component = ".." then outside rest
    else if isLongName component then .lookUp .tooLong
    else .lookUp .missing

def follow (f : Files) (here : List String) : List String → Content
  | [] =>
    match f.entry? here with
    | some (.file bytes) => .ok bytes
    | some .folder => .error .irregular
    | none => .error (.lookUp .missing)
  | component :: rest =>
    match f.entry? here with
    | none => .error (.lookUp .missing)
    | some (.file _) => .error (.lookUp .notFolder)
    | some .folder =>
      if component = ".." then
        if here.isEmpty then .error (outside rest) else f.follow here.dropLast rest
      else if isLongName component then .error (.lookUp .tooLong)
      else f.follow (here ++ [component]) rest

def read (f : Files) (p : Path) : Content :=
  match p.refusal? with
  | some fault => .error fault
  | none => if p.root.isEmpty then f.follow [] p.components else .error (outside p.components)

def landing (components : List String) : List String :=
  components.foldl
    (fun here component => if component = ".." then here.dropLast else here ++ [component]) []

/-- The folders that have to be there before something can be stored under components. -/
def passed (components : List String) : List (List String × Entry) :=
  (List.range (components.length - 1)).map fun k => (landing (components.take (k + 1)), .folder)

/-- What is stored under the given paths, one after the other. What is stored later takes the
place of what was stored there before. -/
def ofPaths (stored : List (Path × Entry)) : Files :=
  ⟨stored.reverse.flatMap fun (path, entry) =>
    (landing path.components, entry) :: passed path.components⟩

/-- A machine with these files, on which no home is known. -/
def machine (f : Files) : Machine Id := { home := fun _ => none, content := f.read }

end Files

inductive LoadFault where
  | file (path : String) (fault : FileFault)
  | encoding (malformed : Utf8.Malformed)
  | rules (fault : Fault)

def LoadFault.message : LoadFault → String
  | .file path fault => fault.message path
  | .encoding malformed => malformed.message
  | .rules fault => fault.message

def textOfBytes (bytes : List UInt8) : Except Utf8.Malformed String :=
  (Utf8.decode bytes).map fun cs => String.ofList (Blank.plainBreaks cs)

def RuleBook.load (path : Path) (content : Content) : Except LoadFault RuleBook :=
  match content with
  | .error fault => .error (.file path.text fault)
  | .ok bytes =>
    match textOfBytes bytes with
    | .error malformed => .error (.encoding malformed)
    | .ok text => (RuleBook.ofText text (some path.text)).mapError .rules

end RouteVolume
