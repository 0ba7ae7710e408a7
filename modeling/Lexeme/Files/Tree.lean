import Lexeme.Files.Path

/-!
# File trees

A tree says what is at each place of a file system: a file, a directory, a device that holds nothing, or a link to
another path. Paths are followed from the root or from a working directory, link by link; every part of a path but the
last has to be a directory.

A tree carries that it is one (`IsProper`): no two nodes are at one place, places are made of names, and every node lies in
a directory. Nothing can be put where that would not be so any more (`Tree.Accepts`).

Trees know no permissions and no other programs, and the medium never fails, so a path can only be of no use for one of the
reasons in `Failure`. Names are texts; those that are not UTF-8 are left out.
-/

namespace Lexeme.Files

/-! ## Nodes -/

/-- The names that lead from the root to a node. -/
abbrev Place := List String

inductive Node where
  | file (content : ByteArray)
  | directory
  | link (target : String)
  | device

instance : (node : Option Node) → Decidable (node = some .directory)
  | some .directory => isTrue rfl
  | some (.file _) => isFalse (by simp)
  | some (.link _) => isFalse (by simp)
  | some .device => isFalse (by simp)
  | none => isFalse (by simp)

/-- What nodes have at a place. The root is always a directory. -/
def nodeAmong? (nodes : List (Place × Node)) (place : Place) : Option Node :=
  if place = [] then some .directory else (nodes.find? (·.1 = place)).map Prod.snd

/-- The nodes with another one at a place. -/
def replace (nodes : List (Place × Node)) (place : Place) (node : Node) : List (Place × Node) :=
  nodes.filter (·.1 ≠ place) ++ [(place, node)]

/-- The names that nodes have in a place. -/
def namesAmong (nodes : List (Place × Node)) (place : Place) : List String :=
  nodes.filterMap fun (p, _) =>
    match p.getLast? with
    | some name => if p.dropLast = place then some name else none
    | none => none

/-- Whether nodes are those of a tree: no two of them are at one place, none is at the root, all places are made of names,
and every node lies in a directory. -/
structure IsProper (nodes : List (Place × Node)) : Prop where
  distinct : (nodes.map Prod.fst).Nodup
  ne_root : ∀ e ∈ nodes, e.1 ≠ []
  isName : ∀ e ∈ nodes, ∀ name ∈ e.1, IsName name
  isIn : ∀ e ∈ nodes, nodeAmong? nodes e.1.dropLast = some .directory

instance (nodes : List (Place × Node)) : Decidable (IsProper nodes) :=
  decidable_of_iff ((nodes.map Prod.fst).Nodup ∧ (∀ e ∈ nodes, e.1 ≠ []) ∧ (∀ e ∈ nodes, ∀ name ∈ e.1, IsName name) ∧
      ∀ e ∈ nodes, nodeAmong? nodes e.1.dropLast = some .directory)
    ⟨fun ⟨hdistinct, hroot, hnames, hin⟩ => ⟨hdistinct, hroot, hnames, hin⟩,
      fun h => ⟨h.distinct, h.ne_root, h.isName, h.isIn⟩⟩

section

variable {nodes : List (Place × Node)} {place : Place}

theorem nodeAmong?_filter {keep : Place → Bool} (hkeep : place = [] ∨ keep place = true) :
    nodeAmong? (nodes.filter (keep ·.1)) place = nodeAmong? nodes place := by
  rcases hkeep with rfl | hkeep
  · rfl
  · unfold nodeAmong?
    rw [List.find?_filter]
    refine congrArg (fun found : Option (Place × Node) => if place = [] then some .directory else found.map Prod.snd)
      (congrArg (List.find? · nodes) (funext fun e => ?_))
    by_cases he : e.1 = place
    · simp [he, hkeep]
    · simp [he]

theorem nodeAmong?_replace (hplace : place ≠ []) (node : Node) (other : Place) :
    nodeAmong? (replace nodes place node) other = if other = place then some node else nodeAmong? nodes other := by
  by_cases hroot : other = []
  · subst hroot
    rw [if_neg hplace.symm]
    rfl
  · unfold nodeAmong? replace
    rw [if_neg hroot, if_neg hroot, List.find?_append]
    by_cases hother : other = place
    · subst hother
      have hnone : (nodes.filter (·.1 ≠ other)).find? (·.1 = other) = none :=
        List.find?_eq_none.mpr fun e he => by simpa using (List.mem_filter.mp he).2
      rw [hnone, if_pos rfl]
      simp
    · have hsame : (nodes.filter (·.1 ≠ place)).find? (·.1 = other) = nodes.find? (·.1 = other) := by
        rw [List.find?_filter]
        refine congrArg (List.find? · nodes) (funext fun e => ?_)
        by_cases he : e.1 = other <;> simp [he, hother]
      rw [hsame, if_neg hother]
      simp [Ne.symm hother]

namespace IsProper

theorem nil : IsProper [] := ⟨List.nodup_nil, by simp, by simp, by simp⟩

/-- What is left of a tree is one, if nothing is left of what was in a directory that is gone. -/
theorem filter (h : IsProper nodes) {keep : Place → Bool}
    (hkeep : ∀ place, keep place = true → place.dropLast = [] ∨ keep place.dropLast = true) :
    IsProper (nodes.filter (keep ·.1)) where
  distinct := (List.filter_sublist.map _).nodup h.distinct
  ne_root := fun e he => h.ne_root e (List.mem_filter.mp he).1
  isName := fun e he => h.isName e (List.mem_filter.mp he).1
  isIn := fun e he => by
    obtain ⟨he, hkept⟩ := List.mem_filter.mp he
    rw [nodeAmong?_filter (hkeep e.1 hkept)]
    exact h.isIn e he

/-- A tree stays one if a node is put in a directory, but not instead of one. -/
theorem replace (h : IsProper nodes) (hnames : ∀ name ∈ place, IsName name)
    (hparent : nodeAmong? nodes place.dropLast = some .directory) (hplace : nodeAmong? nodes place ≠ some .directory)
    (node : Node) : IsProper (replace nodes place node) := by
  have hroot : place ≠ [] := by
    rintro rfl
    exact hplace rfl
  have hkept {parent : Place} (hdirectory : nodeAmong? nodes parent = some .directory) :
      nodeAmong? (Files.replace nodes place node) parent = some .directory := by
    rw [nodeAmong?_replace hroot, if_neg, hdirectory]
    rintro rfl
    exact hplace hdirectory
  have hmem {P : Place × Node → Prop} (hold : ∀ e ∈ nodes, P e) (hnew : P (place, node)) :
      ∀ e ∈ Files.replace nodes place node, P e := by
    intro e he
    rcases List.mem_append.mp he with he | he
    · exact hold e (List.mem_filter.mp he).1
    · exact List.mem_singleton.mp he ▸ hnew
  refine ⟨?_, hmem h.ne_root hroot, hmem h.isName hnames, hmem (fun e he => hkept (h.isIn e he)) (hkept hparent)⟩
  unfold Files.replace
  rw [List.map_append, List.nodup_append]
  refine ⟨(List.filter_sublist.map _).nodup h.distinct, List.pairwise_singleton _ place, fun other hother last hlast => ?_⟩
  obtain ⟨e, he, rfl⟩ := List.mem_map.mp hother
  rw [List.mem_singleton.mp hlast]
  exact of_decide_eq_true (List.mem_filter.mp he).2

end IsProper

end

/-! ## Trees -/

/-- The nodes by their places, in no particular order, and the working directory. -/
@[ext]
structure Tree where
  nodes : List (Place × Node)
  here : Place
  isProper : IsProper nodes

/-- Why a path cannot be used in a tree. Refused permissions and failures of the medium are left out. -/
inductive Failure where
  | notFound
  | notDirectory
  | isDirectory
  | nameTooLong
  | tooManyLinks
  | zeroCharacter
  | notText
deriving DecidableEq, Repr

/-- The failure in the words of the system. -/
def Failure.message : Failure → String
  | notFound => "No such file or directory (os error 2)"
  | notDirectory => "Not a directory (os error 20)"
  | isDirectory => "Is a directory (os error 21)"
  | nameTooLong => "File name too long (os error 36)"
  | tooManyLinks => "Too many levels of symbolic links (os error 40)"
  | zeroCharacter => "file name contained an unexpected NUL byte"
  | notText => "stream did not contain valid UTF-8"

namespace Tree

/-- A tree of nothing but the root. -/
def empty : Tree := ⟨[], [], .nil⟩

/-- What is at a place. -/
def node? (t : Tree) (place : Place) : Option Node := nodeAmong? t.nodes place

/-- Whether a node can be put at a place: the place is made of names, it lies in a directory, and there is not already a
directory. -/
structure Accepts (t : Tree) (place : Place) : Prop where
  isName : ∀ name ∈ place, IsName name
  isIn : t.node? place.dropLast = some .directory
  not_directory : t.node? place ≠ some .directory

instance (t : Tree) (place : Place) : Decidable (t.Accepts place) :=
  decidable_of_iff ((∀ name ∈ place, IsName name) ∧ t.node? place.dropLast = some .directory ∧
      t.node? place ≠ some .directory)
    ⟨fun ⟨hnames, hparent, hplace⟩ => ⟨hnames, hparent, hplace⟩, fun h => ⟨h.isName, h.isIn, h.not_directory⟩⟩

/-- Puts a node at a place, if the tree accepts it. -/
def put (t : Tree) (place : Place) (node : Node) : Tree :=
  if h : t.Accepts place then
    ⟨replace t.nodes place node, t.here, t.isProper.replace h.isName h.isIn h.not_directory node⟩
  else t

theorem isPrefixOf_dropLast {place other : Place} (h : (!place.isPrefixOf other) = true) :
    other.dropLast = [] ∨ (!place.isPrefixOf other.dropLast) = true := by
  refine .inr ?_
  rw [Bool.not_eq_true', Bool.eq_false_iff, ne_eq, List.isPrefixOf_iff_prefix] at h ⊢
  exact fun hbelow => h (hbelow.trans (List.dropLast_prefix other))

/-- Takes away what is at a place and below it. -/
def prune (t : Tree) (place : Place) : Tree :=
  ⟨t.nodes.filter (!place.isPrefixOf ·.1), t.here, t.isProper.filter fun _ => isPrefixOf_dropLast⟩

/-! ## Following paths -/

/-- Names take at most this many bytes. -/
def nameLimit : Nat := 255

/-- Paths take less than this many bytes. -/
def pathLimit : Nat := 4096

/-- At most this many links are followed on the way along one path. -/
def linkLimit : Nat := 40

/-- Where a path leads: to a node, or to a place in a directory where nothing is. -/
inductive Location where
  | found (place : Place) (node : Node)
  | vacant (place : Place)

/-- Follows the parts `todo` of a path from a place on. -/
def walk (t : Tree) (links : Nat) (place : Place) (todo : List String) : Except Failure Location :=
  match todo with
  | [] => (t.node? place).elim (.error .notFound) fun node => .ok (.found place node)
  | name :: rest =>
    match t.node? place with
    | some .directory =>
      if name = "" ∨ name = "." then walk t links place rest
      else if name = ".." then walk t links place.dropLast rest
      else if nameLimit < name.utf8ByteSize then .error .nameTooLong
      else
        match t.node? (place ++ [name]) with
        | some (.link target) =>
          match links with
          | 0 => .error .tooManyLinks
          | links + 1 => walk t links (if target.startsWith "/" then [] else place) (parts target ++ rest)
        | some _ => walk t links (place ++ [name]) rest
        | none => if rest = [] then .ok (.vacant (place ++ [name])) else .error .notFound
    | _ => .error .notDirectory
termination_by (links, todo.length)

/-- Where a path begins: at the root, or at the working directory. -/
def base (t : Tree) (path : String) : Place := if path.startsWith "/" then [] else t.here

/-- Where a path leads. -/
def locate (t : Tree) (path : String) : Except Failure Location :=
  if path.contains '\x00' then .error .zeroCharacter
  else if path.isEmpty then .error .notFound
  else if pathLimit ≤ path.utf8ByteSize then .error .nameTooLong
  else t.walk linkLimit (t.base path) (parts path)

/-- The node that a path leads to. -/
def lookup (t : Tree) (path : String) : Except Failure Node :=
  match t.locate path with
  | .error e => .error e
  | .ok (.found _ node) => .ok node
  | .ok (.vacant _) => .error .notFound

/-- Whether a path leads to a directory. -/
def isDirectory (t : Tree) (path : String) : Bool :=
  match t.lookup path with
  | .ok .directory => true
  | _ => false

/-! ## Reading and writing -/

/-- The content of a file. -/
def read (t : Tree) (path : String) : Except Failure ByteArray :=
  match t.lookup path with
  | .error e => .error e
  | .ok (.file content) => .ok content
  | .ok .device => .ok .empty
  | .ok _ => .error .isDirectory

/-- The content of a file as text. -/
def readText (t : Tree) (path : String) : Except Failure String :=
  match t.read path with
  | .error e => .error e
  | .ok content => (String.fromUTF8? content).elim (.error .notText) .ok

/-- Writes a file, instead of what it held before. A device takes everything and keeps nothing. -/
def write (t : Tree) (path : String) (content : ByteArray) : Except Failure Tree :=
  match t.locate path with
  | .error e => .error e
  | .ok (.found place (.file _)) => .ok (t.put place (.file content))
  | .ok (.found _ .device) => .ok t
  | .ok (.found _ _) => .error .isDirectory
  | .ok (.vacant place) => .ok (t.put place (.file content))

/-- The names in a place. -/
def namesAt (t : Tree) (place : Place) : List String := namesAmong t.nodes place

/-- The names in a directory. -/
def list (t : Tree) (path : String) : Except Failure (List String) :=
  match t.locate path with
  | .error e => .error e
  | .ok (.found place .directory) => .ok (t.namesAt place)
  | .ok (.found _ _) => .error .notDirectory
  | .ok (.vacant _) => .error .notFound

/-! ## Building -/

/-- The names in a path. -/
def namesIn (path : String) : List String :=
  (parts path).filter fun part => part ≠ "" && part ≠ "."

/-- Makes the directories that lead from a place by the names given, as far as nothing is there. Gives the place that
they lead to, unless something else than a directory is on the way. -/
def makeDirectories (t : Tree) (place : Place) : List String → Option (Tree × Place)
  | [] => some (t, place)
  | name :: rest =>
    match t.walk linkLimit place [name] with
    | .ok (.found next .directory) => makeDirectories t next rest
    | .ok (.vacant next) => makeDirectories (t.put next .directory) next rest
    | _ => none

/-- Puts a node at a place where nothing is, or a file instead of a file. -/
def settle (t : Tree) (place : Place) (name : String) (node : Node) : Tree :=
  match node, t.walk linkLimit place [name] with
  | .file content, .ok (.found target (.file _)) => t.put target (.file content)
  | node, .ok (.vacant target) => t.put target node
  | _, _ => t

/-- Puts a node at the end of a path, and makes the directories on the way. -/
def plant (t : Tree) (path : String) (node : Node) : Tree :=
  let names := namesIn path
  match names.getLast?, t.makeDirectories (t.base path) names.dropLast with
  | some name, some (t, place) => t.settle place name node
  | _, _ => t

/-- Takes away what a path names, and all below it. Links are followed on the way, but a link at the end goes itself. -/
def remove (t : Tree) (path : String) : Tree :=
  let names := namesIn path
  match names.getLast?, t.walk linkLimit (t.base path) names.dropLast with
  | some name, .ok (.found place .directory) => if name = ".." then t else t.prune (place ++ [name])
  | _, _ => t

/-- A tree in which there is nothing but the working directory and what leads to it. -/
def startingAt (directory : String) : Tree :=
  match empty.makeDirectories [] (namesIn directory) with
  | some (t, place) => { t with here := place }
  | none => empty

end Tree

end Lexeme.Files
