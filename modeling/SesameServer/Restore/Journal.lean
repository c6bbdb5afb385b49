import Mathlib.Data.List.TakeWhile
import SesameServer.Lib.Encoding

/- The names a restore works with and its journal (`restore.go`).

   1. `managedItems` are the names in the data directory a restore replaces.
   2. A `Journal` says how far a restore has got. `Codec` is the encoding of its
      file, JSON in the source: what is written is read back if its names are
      `Plain`, and a file may also hold something that is no journal.
   3. `safeName` is what the reader demands of the two directory names;
      `safeName_append` shows it of the names the writer makes. -/
namespace Sesame.Ops

def databaseName : Bytes := utf8 "sesame.db"
def configName : Bytes := utf8 "config.json"
def secretsDirName : Bytes := utf8 "secrets"

def journalName : Bytes := utf8 ".restore-journal"
def stagingPrefix : Bytes := utf8 ".restore-new-"
def asidePrefix : Bytes := utf8 "restore-previous-"
def journalVersion : Int := 1

/-- The file a journal is written to before it is renamed into place. -/
def journalTemp : Bytes := journalName ++ utf8 ".tmp"

def managedItems : List Bytes :=
  [databaseName, databaseName ++ utf8 "-wal", databaseName ++ utf8 "-shm", secretsDirName, configName]

def managedName (name : Bytes) : Bool := managedItems.any (· == name)

/-- The journal's phase; the reader takes any text. -/
inductive Phase where
  /-- `"moving-old"` -/
  | movingOld
  /-- `"installing-new"` -/
  | installing
  /-- `"committed"` -/
  | committed
  | other (text : Bytes)
  deriving DecidableEq

structure Journal where
  version : Int
  phase : Phase
  staging : Bytes
  aside : Bytes
  old : List Bytes
  new : List Bytes
  deriving DecidableEq

/-! File names. -/

def slash : UInt8 := 47

/-- `filepath.Base`: the last element, without slashes after it. -/
def base (path : Bytes) : Bytes :=
  if path = [] then utf8 "."
  else
    let trimmed := path.reverse.dropWhile (· = slash)
    let last := (trimmed.takeWhile (· ≠ slash)).reverse
    if last = [] then [slash] else last

def safeName (name : Bytes) : Bool :=
  name ≠ [] && name = base name && name ≠ utf8 "." && name ≠ utf8 ".."

/-- ASCII without a slash. -/
def Plain (name : Bytes) : Prop := ∀ c ∈ name, c ≠ slash ∧ c < 128

instance (name : Bytes) : Decidable (Plain name) :=
  List.decidableBAll (fun c => c ≠ slash ∧ c < 128) name

theorem Plain.append {a b : Bytes} (ha : Plain a) (hb : Plain b) : Plain (a ++ b) := by
  intro c hc
  rcases List.mem_append.mp hc with h | h
  · exact ha c h
  · exact hb c h

theorem plain_decimal (n : Nat) : Plain (Encoding.decimal n) := by
  unfold Encoding.decimal
  split
  · decide
  · intro c hc
    obtain ⟨d, hd, rfl⟩ := List.mem_map.mp hc
    have hlt : d < 10 := Nat.digits_lt_base (by decide) (List.mem_reverse.mp hd)
    interval_cases d <;> decide

theorem base_plain {name : Bytes} (h : Plain name) (hne : name ≠ []) : base name = name := by
  have hno : ∀ c ∈ name.reverse, c ≠ slash := fun c hc => (h c (List.mem_reverse.mp hc)).1
  have hdrop : name.reverse.dropWhile (· = slash) = name.reverse := by
    cases hr : name.reverse with
    | nil => rfl
    | cons c l =>
      have := hno c (by simp [hr])
      simp [this]
  have htake : name.reverse.takeWhile (· ≠ slash) = name.reverse :=
    List.takeWhile_eq_self_iff.mpr (by simpa using hno)
  simp only [base, if_neg hne, hdrop, htake, List.reverse_reverse]

theorem safeName_append {first rest : Bytes} (hfirst : Plain first) (hrest : Plain rest)
    (hlen : 2 < first.length) : safeName (first ++ rest) = true := by
  have hl : 2 < (first ++ rest).length := by simp only [List.length_append]; omega
  have hne : ∀ other : Bytes, other.length ≤ 2 → first ++ rest ≠ other := by
    rintro other ho rfl
    omega
  simp only [safeName, Bool.and_eq_true, decide_eq_true_eq]
  exact ⟨⟨⟨hne [] (by simp), (base_plain (hfirst.append hrest) (hne [] (by simp))).symm⟩,
    hne _ (by decide)⟩, hne _ (by decide)⟩

theorem append_ne {first rest name : Bytes} (h : name.take first.length ≠ first) :
    first ++ rest ≠ name := by
  rintro rfl
  simp at h

/-! The journal's file. -/

/-- The names in `j` are plain and its phase is one a restore writes. -/
structure Journal.Plain (j : Journal) : Prop where
  names : ∀ name ∈ j.staging :: j.aside :: (j.old ++ j.new), Ops.Plain name
  phase : ∀ text, j.phase ≠ .other text

/-- How a journal is stored in a file's content; `blank` is the content of a file
    that has just been created or truncated. -/
structure Codec (β : Type) where
  encode : Journal → β
  decode : β → Option Journal
  blank : β
  decode_encode : ∀ j : Journal, j.Plain → decode (encode j) = some j

end Sesame.Ops
