import Mathlib.Data.List.Lex
import SesameServer.Lib.Utf8

/- JSON strings and objects of strings as Go writes and reads them (`encoding/json`).

   1. `quote` — a string literal. Control characters, `"`, `\`, `<`, `>`, `&`, U+2028 and
      U+2029 are escaped, and a byte that is no UTF-8 becomes U+FFFD.
   2. `StringMap` — a `map[string]string`, by its entries in the order of their keys;
      `marshal` writes it.
   3. `unmarshal` — reads a `map[string]string` as a machine over characters. A value that
      is neither a string nor null is an error like any other.
   4. `scan_quote`, `quote_inj` — a literal is read back, and two literals are equal only
      for strings that are equal with U+FFFD for stray bytes (`clean`).
   5. `unmarshal_marshal` — an object is read back with stray bytes replaced, and to the
      same entries if its keys stay in order (`unmarshal_sorted`); `unmarshal_valid` —
      whatever is read is UTF-8. -/
namespace Json
open Utf8 Encoding

/-! Literals. -/

/-- The escape of a code point below 65536. -/
def unicodeEscape (n : Nat) : List Piece :=
  [.ascii 92, .ascii 117, .ascii (hexDigit (n / 4096 % 16)), .ascii (hexDigit (n / 256 % 16)),
    .ascii (hexDigit (n / 16 % 16)), .ascii (hexDigit (n % 16))]

/-- The letter of a two-character escape. -/
def shortEscape (b : UInt8) : Option UInt8 :=
  match b.toNat with
  | 34 => some 34
  | 92 => some 92
  | 8 => some 98
  | 12 => some 102
  | 10 => some 110
  | 13 => some 114
  | 9 => some 116
  | _ => none

def lineSeparator : Bytes := [0xe2, 0x80, 0xa8]
def paragraphSeparator : Bytes := [0xe2, 0x80, 0xa9]
def replacement : Bytes := [0xef, 0xbf, 0xbd]

def escape : Piece → List Piece
  | .ascii b =>
    match shortEscape b with
    | some letter => [.ascii 92, .ascii letter]
    | none =>
      -- `<`, `>` and `&` are escaped for HTML
      if b.toNat < 32 || b.toNat == 60 || b.toNat == 62 || b.toNat == 38 then unicodeEscape b.toNat
      else [.ascii b]
  | .wide bytes =>
    if bytes = lineSeparator then unicodeEscape 0x2028
    else if bytes = paragraphSeparator then unicodeEscape 0x2029
    else [.wide bytes]
  | .bad _ => [.wide replacement]

/-- A string literal, as the characters of the text. -/
def quote (s : Bytes) : List Piece := .ascii 34 :: ((pieces s).flatMap escape ++ [.ascii 34])

/-! Maps. -/

/-- `strings.Compare(a, b) < 0`. -/
def Before (a b : Bytes) : Prop := a.map UInt8.toNat < b.map UInt8.toNat

instance (a b : Bytes) : Decidable (Before a b) :=
  inferInstanceAs (Decidable (a.map UInt8.toNat < b.map UInt8.toNat))

/-- A `map[string]string`: its entries, keys in order. -/
structure StringMap where
  entries : List (Bytes × Bytes)
  sorted : entries.Pairwise fun x y => Before x.1 y.1
  deriving DecidableEq

def insertEntry (key value : Bytes) : List (Bytes × Bytes) → List (Bytes × Bytes)
  | [] => [(key, value)]
  | (k, v) :: rest =>
    if Before key k then (key, value) :: (k, v) :: rest
    else if key = k then (key, value) :: rest
    else (k, v) :: insertEntry key value rest

def colon : Piece := .ascii 58
def comma : Piece := .ascii 44

/-- The name of a field of a struct, and the colon after it. -/
def label (field : String) : List Piece := quote (utf8 field) ++ [colon]

def member (entry : Bytes × Bytes) : List Piece := quote entry.1 ++ colon :: quote entry.2

def members (entries : List (Bytes × Bytes)) : List Piece :=
  entries.flatMap fun entry => comma :: member entry

/-- An object, its members in the given order. -/
def object : List (Bytes × Bytes) → List Piece
  | [] => [.ascii 123, .ascii 125]
  | entry :: rest => .ascii 123 :: (member entry ++ (members rest ++ [.ascii 125]))

/-- `json.Marshal` of a map: keys in order. -/
def marshal (m : StringMap) : Bytes := (object m.entries).flatMap Piece.bytes

/-! Reading. -/

/-- A part of a literal: text as it is, or an escaped code unit. -/
inductive Part where
  | text (bytes : Bytes)
  | code (n : Nat)
  deriving DecidableEq

inductive Escape where
  | none
  | slash
  | hex (left code : Nat)
  deriving DecidableEq

structure Literal where
  parts : List Part
  escape : Escape
  deriving DecidableEq

def Literal.start : Literal := ⟨[], .none⟩

def hexValue (b : UInt8) : Option Nat :=
  if 48 ≤ b.toNat && b.toNat ≤ 57 then some (b.toNat - 48)
  else if 97 ≤ b.toNat && b.toNat ≤ 102 then some (b.toNat - 87)
  else if 65 ≤ b.toNat && b.toNat ≤ 70 then some (b.toNat - 55)
  else none

/-- What the letter after a backslash stands for. -/
def unescape (b : UInt8) : Option UInt8 :=
  match b.toNat with
  | 34 => some 34
  | 92 => some 92
  | 47 => some 47
  | 98 => some 8
  | 102 => some 12
  | 110 => some 10
  | 114 => some 13
  | 116 => some 9
  | _ => none

/-- One character of a literal: it goes on, or it is closed. -/
def Literal.step (s : Literal) (p : Piece) : Option (Literal ⊕ List Part) :=
  match s.escape, p with
  | .none, .ascii b =>
    if b = 34 then some (.inr s.parts)
    else if b = 92 then some (.inl ⟨s.parts, .slash⟩)
    else if b.toNat < 32 then none
    else some (.inl ⟨s.parts ++ [.text [b]], .none⟩)
  | .none, .wide bytes => some (.inl ⟨s.parts ++ [.text bytes], .none⟩)
  | .none, .bad _ => some (.inl ⟨s.parts ++ [.text replacement], .none⟩)
  | .slash, .ascii b =>
    if b = 117 then some (.inl ⟨s.parts, .hex 3 0⟩)
    else (unescape b).map fun c => .inl ⟨s.parts ++ [.text [c]], .none⟩
  | .hex left code, .ascii b =>
    (hexValue b).map fun d => match left with
      | 0 => .inl ⟨s.parts ++ [.code (16 * code + d)], .none⟩
      | left + 1 => .inl ⟨s.parts, .hex left (16 * code + d)⟩
  | _, _ => none

def combine (high low : Nat) : Nat := (high - 0xd800) * 1024 + (low - 0xdc00) + 0x10000

def isPair (high low : Nat) : Bool :=
  0xd800 ≤ high && high < 0xdc00 && 0xdc00 ≤ low && low < 0xe000

/-- `unquote`: a surrogate without its partner is U+FFFD. -/
def unquote : List Part → Bytes
  | [] => []
  | .text bytes :: rest => bytes ++ unquote rest
  | .code n :: .code m :: rest =>
    if isPair n m then encodeRune (combine n m) ++ unquote rest
    else (if isSurrogate n then replacement else encodeRune n) ++ unquote (.code m :: rest)
  | .code n :: rest => (if isSurrogate n then replacement else encodeRune n) ++ unquote rest

def isSpace (p : Piece) : Bool :=
  p == .ascii 32 || p == .ascii 9 || p == .ascii 13 || p == .ascii 10

/-- Where the reader of an object stands. -/
inductive Mode where
  | begin
  | null (left : List Piece)
  | first
  | key (literal : Literal)
  | colon (key : Bytes)
  | value (key : Bytes)
  | word (key : Bytes) (left : List Piece)
  | text (key : Bytes) (literal : Literal)
  | after
  | again
  | done
  deriving DecidableEq

structure Reader where
  mode : Mode
  members : List (Bytes × Bytes)
  deriving DecidableEq

def ull : List Piece := [.ascii 117, .ascii 108, .ascii 108]

def Reader.step (r : Reader) (p : Piece) : Option Reader :=
  match r.mode with
  | .key literal => (literal.step p).map fun
    | .inl literal => { r with mode := .key literal }
    | .inr parts => { r with mode := .colon (unquote parts) }
  | .text key literal => (literal.step p).map fun
    | .inl literal => { r with mode := .text key literal }
    | .inr parts => ⟨.after, r.members ++ [(key, unquote parts)]⟩
  | .null [] => none
  | .null (q :: left) =>
    if p ≠ q then none else some { r with mode := if left = [] then .done else .null left }
  | .word _ [] => none
  | .word key (q :: left) =>
    -- null leaves the zero value
    if p ≠ q then none
    else if left = [] then some ⟨.after, r.members ++ [(key, [])]⟩
    else some { r with mode := .word key left }
  | mode =>
    if isSpace p then some r
    else match mode, p with
      | .begin, .ascii 110 => some { r with mode := .null ull }
      | .begin, .ascii 123 => some { r with mode := .first }
      | .first, .ascii 34 => some { r with mode := .key .start }
      | .first, .ascii 125 => some { r with mode := .done }
      | .colon key, .ascii 58 => some { r with mode := .value key }
      | .value key, .ascii 34 => some { r with mode := .text key .start }
      | .value key, .ascii 110 => some { r with mode := .word key ull }
      | .after, .ascii 44 => some { r with mode := .again }
      | .after, .ascii 125 => some { r with mode := .done }
      | .again, .ascii 34 => some { r with mode := .key .start }
      | _, _ => none

/-- The members of an object in the order of the text; none for `null`. -/
def readMembers (text : Bytes) : Option (List (Bytes × Bytes)) :=
  match (pieces text).foldlM Reader.step ⟨.begin, []⟩ with
  | some ⟨.done, members⟩ => some members
  | _ => none

/-! Order of keys. -/

theorem map_toNat_injective : Function.Injective (List.map UInt8.toNat) :=
  List.map_injective_iff.mpr fun _ _ h => UInt8.toNat_inj.mp h

theorem Before.trans {a b c : Bytes} (h : Before a b) (h' : Before b c) : Before a c :=
  lt_trans (show a.map UInt8.toNat < b.map UInt8.toNat from h) h'

theorem Before.ne {a b : Bytes} (h : Before a b) : a ≠ b := by
  rintro rfl
  exact lt_irrefl (a.map UInt8.toNat) h

theorem before_of_not {a b : Bytes} (h : ¬ Before a b) (hne : a ≠ b) : Before b a :=
  lt_of_le_of_ne (show b.map UInt8.toNat ≤ a.map UInt8.toNat from not_lt.mp h) fun e =>
    hne (map_toNat_injective e.symm)

variable {key value : Bytes} {entries : List (Bytes × Bytes)} {m : StringMap} {p : Piece}
  {ps rest rest' : List Piece} {s : Literal} {parts : List Part}

theorem mem_insertEntry {e : Bytes × Bytes}
    (h : e ∈ insertEntry key value entries) : e = (key, value) ∨ e ∈ entries := by
  induction entries with
  | nil => exact .inl (List.mem_singleton.mp h)
  | cons x rest ih =>
    unfold insertEntry at h
    split at h
    · exact List.mem_cons.mp h
    · split at h
      · exact (List.mem_cons.mp h).imp_right (List.mem_cons_of_mem _)
      · rcases List.mem_cons.mp h with rfl | h
        · exact .inr List.mem_cons_self
        · exact (ih h).imp_right (List.mem_cons_of_mem _)

theorem sorted_insertEntry (key value : Bytes) (h : entries.Pairwise fun x y => Before x.1 y.1) :
    (insertEntry key value entries).Pairwise fun x y => Before x.1 y.1 := by
  induction entries with
  | nil => exact List.pairwise_singleton _ _
  | cons x rest ih =>
    obtain ⟨hx, hrest⟩ := List.pairwise_cons.mp h
    unfold insertEntry
    split
    · next hbefore =>
      refine List.pairwise_cons.mpr ⟨fun y hy => ?_, h⟩
      rcases List.mem_cons.mp hy with rfl | hy
      · exact hbefore
      · exact Before.trans hbefore (hx y hy)
    · next hbefore =>
      split
      · next heq => exact List.pairwise_cons.mpr ⟨fun y hy => heq ▸ hx y hy, hrest⟩
      · next hne =>
        refine List.pairwise_cons.mpr ⟨fun y hy => ?_, ih hrest⟩
        rcases mem_insertEntry hy with rfl | hy
        · exact before_of_not hbefore hne
        · exact hx y hy

theorem insertEntry_last
    (h : ∀ e ∈ entries, Before e.1 key) : insertEntry key value entries = entries ++ [(key, value)] := by
  induction entries with
  | nil => rfl
  | cons x rest ih =>
    have hx := h x List.mem_cons_self
    have not : ¬ Before key x.1 := fun hb => (hx.trans hb).ne rfl
    unfold insertEntry
    rw [if_neg not, if_neg hx.ne.symm, ih fun e he => h e (List.mem_cons_of_mem _ he)]
    rfl

def StringMap.empty : StringMap := ⟨[], List.Pairwise.nil⟩

def StringMap.insert (m : StringMap) (key value : Bytes) : StringMap :=
  ⟨insertEntry key value m.entries, sorted_insertEntry key value m.sorted⟩

/-- The map that members give one after another: a later one overwrites. -/
def StringMap.ofMembers (members : List (Bytes × Bytes)) : StringMap :=
  members.foldl (fun m e => m.insert e.1 e.2) .empty

/-- `json.Unmarshal` into a `map[string]string`. The nil map of `null` has no entries. -/
def unmarshal (text : Bytes) : Option StringMap := (readMembers text).map .ofMembers

theorem StringMap.ext {m' : StringMap} (h : m.entries = m'.entries) : m = m' := by
  cases m
  cases m'
  congr

theorem ofMembers_append (first second : List (Bytes × Bytes))
    (h : (first ++ second).Pairwise fun x y => Before x.1 y.1) (m : StringMap)
    (hm : m.entries = first) :
    (second.foldl (fun m e => m.insert e.1 e.2) m).entries = first ++ second := by
  induction second generalizing first m with
  | nil => simpa using hm
  | cons e second ih =>
    have last : (m.insert e.1 e.2).entries = first ++ [e] := by
      change insertEntry e.1 e.2 m.entries = _
      rw [hm]
      refine insertEntry_last fun x hx => ?_
      exact (List.pairwise_append.mp h).2.2 x hx e List.mem_cons_self
    rw [List.foldl_cons, ih (first ++ [e]) (by simpa using h) _ last]
    simp

theorem ofMembers_entries (m : StringMap) : StringMap.ofMembers m.entries = m :=
  StringMap.ext (ofMembers_append [] m.entries m.sorted .empty rfl)

theorem mem_ofMembers {members : List (Bytes × Bytes)} {e : Bytes × Bytes}
    (h : e ∈ (StringMap.ofMembers members).entries) : e ∈ members := by
  suffices key : ∀ m : StringMap, e ∈ (members.foldl (fun m e => m.insert e.1 e.2) m).entries →
      e ∈ m.entries ∨ e ∈ members from (key .empty h).resolve_left (by intro h; cases h)
  clear h
  induction members with
  | nil => exact fun m h => .inl h
  | cons x members ih =>
    intro m h
    rcases ih (m.insert x.1 x.2) h with h | h
    · rcases mem_insertEntry h with rfl | h
      · exact .inr List.mem_cons_self
      · exact .inl h
    · exact .inr (List.mem_cons_of_mem _ h)

/-! Literals are text. -/

theorem hexDigit_lt : ∀ n, n < 16 → (hexDigit n).toNat < 0x80 := by decide

theorem hexValue_hexDigit : ∀ n, n < 16 → hexValue (hexDigit n) = some n := by decide

theorem unicodeEscape_wf (n : Nat) : ∀ q ∈ unicodeEscape n, q.WF := by
  have digit : ∀ k, (Piece.ascii (hexDigit (k % 16))).WF := fun k =>
    hexDigit_lt _ (Nat.mod_lt _ (by decide))
  simp only [unicodeEscape, List.mem_cons, List.not_mem_nil, or_false, forall_eq_or_imp, forall_eq]
  exact ⟨by decide, by decide, digit _, digit _, digit _, digit _⟩

/-- A character of a string that is read, or a stray byte. -/
def Read (p : Piece) : Prop := p.WF ∨ ∃ b, p = .bad b

theorem shortEscape_wf {b letter : UInt8} (h : shortEscape b = some letter) :
    (Piece.ascii letter).WF := by
  unfold shortEscape at h
  split at h <;> cases h <;> decide

theorem escape_wf (h : Read p) : ∀ q ∈ escape p, q.WF := by
  cases p with
  | ascii b =>
    have hb : (Piece.ascii b).WF := h.resolve_right fun ⟨_, e⟩ => by cases e
    unfold escape
    dsimp only
    split
    · next letter hletter =>
      simp only [List.mem_cons, List.not_mem_nil, or_false, forall_eq_or_imp, forall_eq]
      exact ⟨by decide, shortEscape_wf hletter⟩
    · split
      · exact unicodeEscape_wf _
      · simpa using hb
  | wide bytes =>
    have hw : (Piece.wide bytes).WF := h.resolve_right fun ⟨_, e⟩ => by cases e
    unfold escape
    dsimp only
    split
    · exact unicodeEscape_wf _
    · split
      · exact unicodeEscape_wf _
      · simpa using hw
  | bad b =>
    rw [escape]
    decide

theorem quote_wf (s : Bytes) : ∀ q ∈ quote s, q.WF := by
  intro q hq
  unfold quote at hq
  rw [List.mem_cons, List.mem_append, List.mem_flatMap, List.mem_singleton] at hq
  rcases hq with rfl | ⟨p, hp, hq⟩ | rfl
  · decide
  · exact escape_wf (wf_or_bad hp) q hq
  · decide

theorem label_wf (field : String) : ∀ q ∈ label field, q.WF := by
  intro q hq
  rcases List.mem_append.mp hq with hq | hq
  · exact quote_wf _ q hq
  · rw [List.mem_singleton.mp hq]
    decide

theorem member_wf (entry : Bytes × Bytes) : ∀ q ∈ member entry, q.WF := by
  intro q hq
  unfold member at hq
  rw [List.mem_append, List.mem_cons] at hq
  rcases hq with hq | rfl | hq
  · exact quote_wf _ q hq
  · decide
  · exact quote_wf _ q hq

theorem object_wf (entries : List (Bytes × Bytes)) : ∀ q ∈ object entries, q.WF := by
  cases entries with
  | nil =>
    simp only [object, List.mem_cons, List.not_mem_nil, or_false, forall_eq_or_imp, forall_eq]
    exact ⟨by decide, by decide⟩
  | cons entry rest =>
    intro q hq
    simp only [object, members, List.mem_cons, List.mem_append, List.mem_flatMap,
      List.not_mem_nil, or_false] at hq
    rcases hq with rfl | hq | ⟨e, -, rfl | hq⟩ | rfl
    · decide
    · exact member_wf _ q hq
    · decide
    · exact member_wf _ q hq
    · decide

/-! Literals are read back. -/

/-- The literal at the start: its parts, and what follows it. -/
def scan (s : Literal) : List Piece → Option (List Part × List Piece)
  | [] => none
  | p :: rest =>
    match s.step p with
    | none => none
    | some (.inl s') => scan s' rest
    | some (.inr parts) => some (parts, rest)

def part : Piece → Part
  | .ascii b =>
    if (shortEscape b).isNone && (b.toNat < 32 || b.toNat == 60 || b.toNat == 62 || b.toNat == 38) then
      .code b.toNat
    else .text [b]
  | .wide bytes =>
    if bytes = lineSeparator then .code 0x2028
    else if bytes = paragraphSeparator then .code 0x2029
    else .text bytes
  | .bad _ => .text replacement

theorem scan_unicodeEscape {n : Nat} (h : n < 65536) (parts : List Part) (rest : List Piece) :
    scan ⟨parts, .none⟩ (unicodeEscape n ++ rest) = scan ⟨parts ++ [.code n], .none⟩ rest := by
  have value : ∀ k, hexValue (hexDigit (k % 16)) = some (k % 16) := fun k =>
    hexValue_hexDigit _ (Nat.mod_lt _ (by decide))
  have sum : 16 * (16 * (16 * (16 * 0 + n / 4096 % 16) + n / 256 % 16) + n / 16 % 16) + n % 16 = n := by
    omega
  conv_rhs => rw [← sum]
  simp [unicodeEscape, scan, Literal.step, value]

theorem scan_escape (h : Read p) (parts : List Part) (rest : List Piece) :
    scan ⟨parts, .none⟩ (escape p ++ rest) = scan ⟨parts ++ [part p], .none⟩ rest := by
  cases p with
  | ascii b =>
    have hb : b.toNat < 128 := h.resolve_right fun ⟨_, e⟩ => by cases e
    unfold escape part
    dsimp only
    cases hshort : shortEscape b with
    | some letter =>
      have back : letter ≠ 117 ∧ unescape letter = some b := by
        unfold shortEscape at hshort
        split at hshort <;> cases hshort <;> rename_i hnat <;>
          exact ⟨by decide, by rw [← UInt8.ofNat_toNat (x := b), hnat]; decide⟩
      simp [scan, Literal.step, back.1, back.2]
    | none =>
      have hquote : b ≠ 34 := by rintro rfl; exact absurd hshort (by decide)
      have hslash : b ≠ 92 := by rintro rfl; exact absurd hshort (by decide)
      simp only [Option.isNone_none, Bool.true_and]
      split
      · exact scan_unicodeEscape (by omega) parts rest
      · next hplain =>
        have hctl : ¬ b.toNat < 32 := by
          simp only [Bool.or_eq_true, decide_eq_true_eq, not_or] at hplain
          exact hplain.1.1.1
        simp [scan, Literal.step, hquote, hslash, hctl]
  | wide bytes =>
    unfold escape part
    dsimp only
    split
    · exact scan_unicodeEscape (by decide) parts rest
    · split
      · exact scan_unicodeEscape (by decide) parts rest
      · rfl
  | bad b => rfl

theorem scan_quote (s : Bytes) (rest : List Piece) :
    scan .start ((pieces s).flatMap escape ++ .ascii 34 :: rest) =
      some ((pieces s).map part, rest) := by
  suffices key : ∀ (ps : List Piece), (∀ p ∈ ps, Read p) → ∀ parts,
      scan ⟨parts, .none⟩ (ps.flatMap escape ++ .ascii 34 :: rest) =
        some (parts ++ ps.map part, rest) from
    key (pieces s) (fun p hp => wf_or_bad hp) []
  intro ps hps
  induction ps with
  | nil => intro parts; simp [scan, Literal.step]
  | cons p ps ih =>
    intro parts
    rw [List.flatMap_cons, List.append_assoc, scan_escape (hps p List.mem_cons_self),
      ih fun q hq => hps q (List.mem_cons_of_mem _ hq)]
    simp

theorem part_ascii (b : UInt8) : part (.ascii b) = .code b.toNat ∨ part (.ascii b) = .text [b] := by
  unfold part
  dsimp only
  split
  · exact .inl rfl
  · exact .inr rfl

theorem part_wide (bytes : Bytes) : (part (.wide bytes) = .code 0x2028 ∧ bytes = lineSeparator) ∨
    (part (.wide bytes) = .code 0x2029 ∧ bytes = paragraphSeparator) ∨
    part (.wide bytes) = .text bytes := by
  unfold part
  dsimp only
  split
  · next h => exact .inl ⟨rfl, h⟩
  · split
    · next h => exact .inr (.inl ⟨rfl, h⟩)
    · exact .inr (.inr rfl)

def cleanPiece : Piece → Bytes
  | .bad _ => replacement
  | p => p.bytes

/-- The string with U+FFFD for every byte that is no UTF-8. -/
def clean (s : Bytes) : Bytes := (pieces s).flatMap cleanPiece

theorem clean_of_valid {s : Bytes} (valid : Valid s) : clean s = s := by
  have same : (pieces s).flatMap cleanPiece = (pieces s).flatMap Piece.bytes := by
    refine List.flatMap_congr fun p hp => ?_
    have := valid p hp
    cases p with
    | bad => exact this.elim
    | ascii | wide => rfl
  exact same.trans (flatMap_pieces s)

theorem unquote_code {n : Nat} (h : isSurrogate n = false) (rest : List Part) :
    unquote (.code n :: rest) = encodeRune n ++ unquote rest := by
  have single : ∀ m, isPair n m = false := by
    intro m
    simp only [isSurrogate, Bool.and_eq_false_iff, decide_eq_false_iff_not] at h
    simp only [isPair, Bool.and_eq_false_iff, decide_eq_false_iff_not]
    omega
  cases rest with
  | nil => simp [unquote, h]
  | cons p rest =>
    cases p with
    | text bytes => simp [unquote, h]
    | code m => rw [unquote]; simp [single m, h]

theorem unquote_part (h : Read p) (rest : List Part) :
    unquote (part p :: rest) = cleanPiece p ++ unquote rest := by
  cases p with
  | ascii b =>
    have hb : b.toNat < 128 := h.resolve_right fun ⟨_, e⟩ => by cases e
    rcases part_ascii b with hpart | hpart <;> rw [hpart]
    · rw [unquote_code (by simp [isSurrogate]; omega), encodeRune, if_pos hb, UInt8.ofNat_toNat]
      rfl
    · rfl
  | wide bytes =>
    rcases part_wide bytes with ⟨hpart, rfl⟩ | ⟨hpart, rfl⟩ | hpart <;> rw [hpart]
    · rw [unquote_code (by decide)]
      rfl
    · rw [unquote_code (by decide)]
      rfl
    · rfl
  | bad b => rfl

theorem unquote_parts (s : Bytes) : unquote ((pieces s).map part) = clean s := by
  suffices key : ∀ ps : List Piece, (∀ p ∈ ps, Read p) →
      unquote (ps.map part) = ps.flatMap cleanPiece from key _ fun p hp => wf_or_bad hp
  intro ps hps
  induction ps with
  | nil => rfl
  | cons p ps ih =>
    rw [List.map_cons, unquote_part (hps p List.mem_cons_self),
      ih fun q hq => hps q (List.mem_cons_of_mem _ hq)]
    rfl

/-- The literal of a string is that of its cleaned form. -/
theorem quote_clean (s : Bytes) : quote (clean s) = quote s := by
  have hpieces : pieces (clean s) = (pieces s).map fun
      | .bad _ => .wide replacement
      | p => p := by
    have hbytes : clean s = ((pieces s).map fun
        | .bad _ => .wide replacement
        | p => p).flatMap Piece.bytes := by
      rw [List.flatMap_map]
      refine List.flatMap_congr fun p _ => ?_
      cases p <;> rfl
    rw [hbytes, pieces_flatMap_eq]
    intro q hq
    obtain ⟨p, hp, rfl⟩ := List.mem_map.mp hq
    rcases wf_or_bad hp with hwf | ⟨b, rfl⟩
    · cases p with
      | bad => exact hwf.elim
      | ascii | wide => exact hwf
    · exact (by decide : (Piece.wide replacement).WF)
  unfold quote
  rw [hpieces, List.flatMap_map]
  congr 2
  refine List.flatMap_congr fun p _ => ?_
  cases p <;> rfl

/-- **Literals are unambiguous**: a literal determines the string up to stray bytes, and it ends
    where it ends. -/
theorem quote_inj {s t : Bytes} (h : quote s ++ rest = quote t ++ rest') :
    clean s = clean t ∧ rest = rest' := by
  have read : ∀ (u : Bytes) (r : List Piece), quote u ++ r =
      .ascii 34 :: ((pieces u).flatMap escape ++ .ascii 34 :: r) := by
    intro u r
    simp [quote]
  rw [read, read] at h
  have hscan := congrArg (scan .start) (List.cons.inj h).2
  rw [scan_quote, scan_quote] at hscan
  injection hscan with hscan
  obtain ⟨hparts, hrest⟩ := Prod.mk.inj hscan
  have hclean := congrArg unquote hparts
  rw [unquote_parts, unquote_parts] at hclean
  exact ⟨hclean, hrest⟩

def cleanEntry (e : Bytes × Bytes) : Bytes × Bytes := (clean e.1, clean e.2)

theorem member_clean (e : Bytes × Bytes) : member (cleanEntry e) = member e := by
  simp only [member, cleanEntry, quote_clean]

theorem object_clean (entries : List (Bytes × Bytes)) :
    object (entries.map cleanEntry) = object entries := by
  cases entries with
  | nil => rfl
  | cons entry rest => simp only [List.map_cons, object, members, List.flatMap_map, member_clean]

theorem member_inj {x y : Bytes × Bytes} (h : member x ++ rest = member y ++ rest') :
    cleanEntry x = cleanEntry y ∧ rest = rest' := by
  simp only [member, List.append_assoc, List.cons_append] at h
  obtain ⟨hkey, h⟩ := quote_inj h
  obtain ⟨hvalue, hrest⟩ := quote_inj (List.cons.inj h).2
  exact ⟨Prod.ext hkey hvalue, hrest⟩

theorem members_inj {xs ys : List (Bytes × Bytes)}
    (h : members xs ++ .ascii 125 :: rest = members ys ++ .ascii 125 :: rest') :
    xs.map cleanEntry = ys.map cleanEntry ∧ rest = rest' := by
  induction xs generalizing ys with
  | nil =>
    cases ys with
    | nil => exact ⟨rfl, (List.cons.inj h).2⟩
    | cons y ys => exact absurd (List.cons.inj h).1 (by decide)
  | cons x xs ih =>
    cases ys with
    | nil => exact absurd (List.cons.inj h).1 (by decide)
    | cons y ys =>
      simp only [members, List.flatMap_cons, List.cons_append, List.append_assoc] at h
      obtain ⟨hx, h⟩ := member_inj (List.cons.inj h).2
      obtain ⟨hxs, hrest⟩ := ih h
      exact ⟨by rw [List.map_cons, List.map_cons, hx, hxs], hrest⟩

/-- **Objects are unambiguous**, up to stray bytes. -/
theorem object_inj {xs ys : List (Bytes × Bytes)} (h : object xs ++ rest = object ys ++ rest') :
    xs.map cleanEntry = ys.map cleanEntry ∧ rest = rest' := by
  cases xs with
  | nil =>
    cases ys with
    | nil => simpa [object] using h
    | cons y ys =>
      simp only [object, member, quote, List.cons_append] at h
      exact absurd (List.cons.inj (List.cons.inj h).2).1 (by decide)
  | cons x xs =>
    cases ys with
    | nil =>
      simp only [object, member, quote, List.cons_append] at h
      exact absurd (List.cons.inj (List.cons.inj h).2).1 (by decide)
    | cons y ys =>
      simp only [object, List.cons_append, List.append_assoc, List.nil_append] at h
      obtain ⟨hx, h⟩ := member_inj (List.cons.inj h).2
      obtain ⟨hxs, hrest⟩ := members_inj h
      exact ⟨by rw [List.map_cons, List.map_cons, hx, hxs], hrest⟩

/-! Objects are read back. -/

/-- The reader of an object reads keys and values as literals are read. -/
theorem foldlM_literal (inside : Literal → Reader) (after : List Part → Reader)
    (step : ∀ s p, Reader.step (inside s) p = (s.step p).map (Sum.elim inside after))
    (h : scan s ps = some (parts, rest)) :
    ps.foldlM Reader.step (inside s) = rest.foldlM Reader.step (after parts) := by
  induction ps generalizing s with
  | nil => cases h
  | cons p ps ih =>
    unfold scan at h
    rw [List.foldlM_cons, step]
    cases hstep : s.step p with
    | none => rw [hstep] at h; cases h
    | some r =>
      rw [hstep] at h
      cases r with
      | inl s' => exact ih h
      | inr found =>
        cases h
        rfl

theorem foldlM_key (h : scan s ps = some (parts, rest)) (got : List (Bytes × Bytes)) :
    ps.foldlM Reader.step ⟨.key s, got⟩ = rest.foldlM Reader.step ⟨.colon (unquote parts), got⟩ :=
  foldlM_literal (fun s => ⟨.key s, got⟩) (fun parts => ⟨.colon (unquote parts), got⟩)
    (fun _ _ => congrArg (Option.map · _) (funext fun r => by cases r <;> rfl)) h

theorem foldlM_text (h : scan s ps = some (parts, rest)) (key : Bytes) (got : List (Bytes × Bytes)) :
    ps.foldlM Reader.step ⟨.text key s, got⟩ =
      rest.foldlM Reader.step ⟨.after, got ++ [(key, unquote parts)]⟩ :=
  foldlM_literal (fun s => ⟨.text key s, got⟩) (fun parts => ⟨.after, got ++ [(key, unquote parts)]⟩)
    (fun _ _ => congrArg (Option.map · _) (funext fun r => by cases r <;> rfl)) h

/-- A member is read, from the quotation mark of its key on. -/
theorem foldlM_member (entry : Bytes × Bytes) (rest : List Piece) (got : List (Bytes × Bytes))
    {mode : Mode} (hmode : mode = .first ∨ mode = .again) :
    (member entry ++ rest).foldlM Reader.step ⟨mode, got⟩ =
      rest.foldlM Reader.step ⟨.after, got ++ [(clean entry.1, clean entry.2)]⟩ := by
  have opens : Reader.step ⟨mode, got⟩ (.ascii 34) = some ⟨.key .start, got⟩ := by
    rcases hmode with rfl | rfl <;> rfl
  have shape : member entry ++ rest = .ascii 34 :: ((pieces entry.1).flatMap escape ++
      .ascii 34 :: (colon :: .ascii 34 :: ((pieces entry.2).flatMap escape ++
        .ascii 34 :: rest))) := by
    simp [member, quote]
  rw [shape, List.foldlM_cons, opens]
  change List.foldlM _ _ _ = _
  rw [foldlM_key (scan_quote _ _), unquote_parts]
  exact (foldlM_text (scan_quote entry.2 rest) _ got).trans (by rw [unquote_parts])

theorem foldlM_members (entries : List (Bytes × Bytes)) (rest : List Piece)
    (got : List (Bytes × Bytes)) : (members entries ++ rest).foldlM Reader.step ⟨.after, got⟩ =
      rest.foldlM Reader.step ⟨.after, got ++ entries.map fun e => (clean e.1, clean e.2)⟩ := by
  induction entries generalizing got with
  | nil => simp [members]
  | cons entry entries ih =>
    have shape : members (entry :: entries) ++ rest =
        comma :: (member entry ++ (members entries ++ rest)) := by
      simp [members]
    have next : Reader.step ⟨.after, got⟩ comma = some ⟨.again, got⟩ := rfl
    rw [shape, List.foldlM_cons, next]
    change List.foldlM Reader.step ⟨.again, got⟩ _ = _
    rw [foldlM_member entry _ got (.inr rfl), ih]
    simp

theorem foldlM_object (entries : List (Bytes × Bytes)) :
    (object entries).foldlM Reader.step ⟨.begin, []⟩ =
      some ⟨.done, entries.map fun e => (clean e.1, clean e.2)⟩ := by
  cases entries with
  | nil => rfl
  | cons entry rest =>
    have opens : Reader.step ⟨.begin, []⟩ (.ascii 123) = some ⟨.first, []⟩ := rfl
    rw [object, List.foldlM_cons, opens]
    change List.foldlM Reader.step ⟨.first, []⟩ _ = _
    rw [foldlM_member entry _ [] (.inl rfl), foldlM_members]
    rfl

/-- **An object is read back**, with U+FFFD for every byte that is no UTF-8. -/
theorem unmarshal_marshal (m : StringMap) : unmarshal (marshal m) =
    some (.ofMembers (m.entries.map cleanEntry)) := by
  unfold unmarshal readMembers marshal
  rw [pieces_flatMap_eq (object_wf m.entries), foldlM_object]
  rfl

def ValidEntries (entries : List (Bytes × Bytes)) : Prop := ∀ e ∈ entries, Valid e.1 ∧ Valid e.2

theorem map_cleanEntry {entries : List (Bytes × Bytes)} (valid : ValidEntries entries) :
    entries.map cleanEntry = entries := by
  conv_rhs => rw [← List.map_id entries]
  refine List.map_congr_left fun e he => ?_
  obtain ⟨hkey, hvalue⟩ := valid e he
  rw [cleanEntry, clean_of_valid hkey, clean_of_valid hvalue]
  rfl

/-- The keys are in order and apart also with U+FFFD for stray bytes. -/
def StringMap.StaysSorted (m : StringMap) : Prop :=
  (m.entries.map cleanEntry).Pairwise fun x y => Before x.1 y.1

instance (m : StringMap) : Decidable m.StaysSorted := inferInstanceAs (Decidable (List.Pairwise _ _))

/-- Then an object is read back with the entries it was written with, cleaned. -/
theorem unmarshal_sorted (h : m.StaysSorted) :
    unmarshal (marshal m) = some ⟨m.entries.map cleanEntry, h⟩ := by
  rw [unmarshal_marshal]
  exact congrArg some (ofMembers_entries ⟨_, h⟩)

/-! Whatever is read is UTF-8. -/

def Part.WF : Part → Prop
  | .text bytes => Valid bytes
  | .code n => n < 65536

theorem valid_replacement : Valid replacement := by decide

theorem valid_unquote (h : ∀ p ∈ parts, p.WF) : Valid (unquote parts) := by
  have single : ∀ n, n < 65536 →
      Valid (if isSurrogate n then replacement else encodeRune n) := by
    intro n hn
    split
    · exact valid_replacement
    · next hs => exact valid_encodeRune (by omega) (by simpa using hs)
  fun_induction unquote parts with
  | case1 => exact valid_nil
  | case2 bytes rest ih =>
    exact (h _ List.mem_cons_self).append (ih fun p hp => h p (List.mem_cons_of_mem _ hp))
  | case3 n m rest hpair ih =>
    refine (valid_encodeRune ?_ ?_).append (ih fun p hp => h p (by simp [hp]))
    · simp only [isPair, Bool.and_eq_true, decide_eq_true_eq] at hpair
      simp only [combine]
      omega
    · have high : 0xe000 ≤ combine n m := by
        unfold combine
        omega
      simp only [isSurrogate, Bool.and_eq_false_iff, decide_eq_false_iff_not]
      omega
  | case4 n m rest hpair ih =>
    exact (single n (h (.code n) List.mem_cons_self)).append
      (ih fun p hp => h p (List.mem_cons_of_mem _ hp))
  | case5 n rest hne ih =>
    exact (single n (h (.code n) List.mem_cons_self)).append
      (ih fun p hp => h p (List.mem_cons_of_mem _ hp))

/-- A literal that is being read holds UTF-8, and the number of the digits read so far. -/
structure Literal.WF (s : Literal) : Prop where
  parts : ∀ p ∈ s.parts, p.WF
  escape : ∀ left code, s.escape = .hex left code → left ≤ 3 ∧ code < 16 ^ (3 - left)

theorem Literal.start_wf : Literal.start.WF where
  parts _ h := by cases h
  escape _ _ h := by cases h

theorem Literal.WF.snoc (hs : s.WF) {q : Part} (hq : q.WF) :
    Literal.WF ⟨s.parts ++ [q], .none⟩ where
  parts p hp := by
    rcases List.mem_append.mp hp with hp | hp
    · exact hs.parts p hp
    · rw [List.mem_singleton.mp hp]
      exact hq
  escape _ _ h := by cases h

theorem hexValue_lt {b : UInt8} {d : Nat} (h : hexValue b = some d) : d < 16 := by
  unfold hexValue at h
  simp only [Bool.and_eq_true, decide_eq_true_eq] at h
  split at h
  · cases h; omega
  · split at h
    · cases h; omega
    · split at h
      · cases h; omega
      · cases h

theorem unescape_lt {b c : UInt8} (h : unescape b = some c) : c.toNat < 128 := by
  unfold unescape at h
  split at h <;> cases h <;> decide

/-- What one character makes of it. -/
def Good : Literal ⊕ List Part → Prop
  | .inl s => s.WF
  | .inr parts => ∀ p ∈ parts, p.WF

theorem Literal.WF.step (hs : s.WF) (hp : Read p) {r : Literal ⊕ List Part}
    (h : s.step p = some r) : Good r := by
  have ascii : ∀ {b : UInt8}, b.toNat < 128 → Part.WF (.text [b]) := fun hb =>
    valid_of_wf (p := .ascii _) hb
  unfold Literal.step at h
  split at h
  · next b hescape =>
    have hb : b.toNat < 128 := hp.resolve_right fun ⟨_, e⟩ => by cases e
    split at h
    · cases h; exact hs.parts
    · split at h
      · cases h; exact ⟨hs.parts, fun _ _ h => by cases h⟩
      · split at h
        · cases h
        · cases h; exact hs.snoc (ascii hb)
  · next bytes hescape =>
    cases h
    exact hs.snoc (valid_of_wf (p := .wide bytes) (hp.resolve_right fun ⟨_, e⟩ => by cases e))
  · cases h; exact hs.snoc valid_replacement
  · next b hescape =>
    split at h
    · cases h
      exact ⟨hs.parts, fun left code h => by cases h; exact ⟨Nat.le_refl _, by decide⟩⟩
    · obtain ⟨c, hc, rfl⟩ := Option.map_eq_some_iff.mp h
      exact hs.snoc (ascii (unescape_lt hc))
  · next left code b hescape =>
    obtain ⟨hleft, hcode⟩ := hs.escape left code hescape
    obtain ⟨d, hd, rfl⟩ := Option.map_eq_some_iff.mp h
    have hlt := hexValue_lt hd
    cases left with
    | zero => exact hs.snoc (show 16 * code + d < 65536 by omega)
    | succ left =>
      refine ⟨hs.parts, fun left' code' h => ?_⟩
      cases h
      refine ⟨by omega, ?_⟩
      have : 3 - left = (3 - (left + 1)) + 1 := by omega
      rw [this, Nat.pow_succ]
      omega
  · cases h

/-- Where the reader stands, everything read is UTF-8. -/
def Mode.WF : Mode → Prop
  | .key literal => literal.WF
  | .colon name | .value name | .word name _ => Valid name
  | .text name literal => Valid name ∧ literal.WF
  | _ => True

structure Reader.WF (r : Reader) : Prop where
  mode : r.mode.WF
  members : ValidEntries r.members

theorem ValidEntries.snoc (h : ValidEntries entries) (hkey : Valid key) (hvalue : Valid value) :
    ValidEntries (entries ++ [(key, value)]) := by
  intro e he
  rcases List.mem_append.mp he with he | he
  · exact h e he
  · rw [List.mem_singleton.mp he]
    exact ⟨hkey, hvalue⟩

theorem Reader.WF.step {r r' : Reader} (hr : r.WF) (hp : Read p) (h : r.step p = some r') : r'.WF := by
  obtain ⟨mode, got⟩ := r
  obtain ⟨hmode, hgot⟩ := hr
  dsimp only at hmode hgot
  unfold Reader.step at h
  dsimp only at h
  split at h
  · next literal =>
    obtain ⟨x, hx, rfl⟩ := Option.map_eq_some_iff.mp h
    have good := Literal.WF.step hmode hp hx
    cases x with
    | inl s => exact ⟨good, hgot⟩
    | inr parts => exact ⟨valid_unquote good, hgot⟩
  · next key literal =>
    obtain ⟨x, hx, rfl⟩ := Option.map_eq_some_iff.mp h
    have good := Literal.WF.step hmode.2 hp hx
    cases x with
    | inl s => exact ⟨⟨hmode.1, good⟩, hgot⟩
    | inr parts => exact ⟨trivial, hgot.snoc hmode.1 (valid_unquote good)⟩
  · cases h
  · split at h
    · cases h
    · cases h
      refine ⟨?_, hgot⟩
      dsimp only
      split <;> trivial
  · cases h
  · next key q left =>
    split at h
    · cases h
    · split at h
      · cases h; exact ⟨trivial, hgot.snoc hmode valid_nil⟩
      · cases h; exact ⟨hmode, hgot⟩
  · split at h
    · cases h; exact ⟨hmode, hgot⟩
    · split at h <;> cases h <;>
        first
        | exact ⟨trivial, hgot⟩
        | exact ⟨hmode, hgot⟩
        | exact ⟨Literal.start_wf, hgot⟩
        | exact ⟨⟨hmode, Literal.start_wf⟩, hgot⟩

theorem readMembers_valid {text : Bytes} {got : List (Bytes × Bytes)}
    (h : readMembers text = some got) : ValidEntries got := by
  suffices key : ∀ (ps : List Piece) (r r' : Reader), (∀ p ∈ ps, Read p) → r.WF →
      ps.foldlM Reader.step r = some r' → r'.WF by
    unfold readMembers at h
    split at h
    · next got' hrun =>
      cases h
      have begins : Reader.WF ⟨.begin, []⟩ := ⟨trivial, fun _ h => by cases h⟩
      exact (key _ _ _ (fun p hp => wf_or_bad hp) begins hrun).members
    · cases h
  intro ps
  induction ps with
  | nil =>
    intro r r' _ hr h
    cases h
    exact hr
  | cons p ps ih =>
    intro r r' hps hr h
    rw [List.foldlM_cons] at h
    cases hstep : r.step p with
    | none => rw [hstep] at h; cases h
    | some mid =>
      rw [hstep] at h
      exact ih mid r' (fun q hq => hps q (List.mem_cons_of_mem _ hq))
        (hr.step (hps p List.mem_cons_self) hstep) h

/-- **Whatever is read is UTF-8.** -/
theorem unmarshal_valid {text : Bytes} (h : unmarshal text = some m) : ValidEntries m.entries := by
  obtain ⟨got, hgot, rfl⟩ := Option.map_eq_some_iff.mp h
  exact fun e he => readMembers_valid hgot e (mem_ofMembers he)

end Json
