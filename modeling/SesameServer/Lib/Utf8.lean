import Mathlib.Data.List.TakeWhile
import SesameServer.Lib.Encoding

/- UTF-8 as Go reads it (`unicode/utf8`).

   1. `pieces` — a byte string cut from its start into characters; a byte that begins no
      well-formed character is a piece of its own (`utf8.DecodeRune` gives it width 1).
   2. `flatMap_pieces`, `pieces_flatMap` — cutting loses nothing, and characters put
      together are cut at the same places.
   3. `encodeRune` — the characters for code points. -/
namespace Utf8

inductive Piece where
  | ascii (b : UInt8)
  | wide (bytes : Bytes)
  | bad (b : UInt8)
  deriving DecidableEq

def Piece.bytes : Piece → Bytes
  | .ascii b => [b]
  | .wide bytes => bytes
  | .bad b => [b]

def cont (b : UInt8) : Bool := 0x80 ≤ b.toNat && b.toNat ≤ 0xbf

/-- The second byte of a character of three or four bytes, by its first byte: overlong
    forms, surrogates and what lies above U+10FFFF are out. -/
def second (b₀ b₁ : UInt8) : Bool :=
  if b₀.toNat = 0xe0 then 0xa0 ≤ b₁.toNat && b₁.toNat ≤ 0xbf
  else if b₀.toNat = 0xed then 0x80 ≤ b₁.toNat && b₁.toNat ≤ 0x9f
  else if b₀.toNat = 0xf0 then 0x90 ≤ b₁.toNat && b₁.toNat ≤ 0xbf
  else if b₀.toNat = 0xf4 then 0x80 ≤ b₁.toNat && b₁.toNat ≤ 0x8f
  else cont b₁

/-- How many bytes the character of two or more bytes at the start takes, 0 if there is none. -/
def width : Bytes → Nat
  | b₀ :: b₁ :: rest =>
    if 0xc2 ≤ b₀.toNat ∧ b₀.toNat ≤ 0xdf then if cont b₁ then 2 else 0
    else if 0xe0 ≤ b₀.toNat ∧ b₀.toNat ≤ 0xf4 then
      if second b₀ b₁ then
        match rest with
        | b₂ :: rest =>
          if cont b₂ then
            if b₀.toNat ≤ 0xef then 3
            else match rest with
              | b₃ :: _ => if cont b₃ then 4 else 0
              | [] => 0
          else 0
        | [] => 0
      else 0
    else 0
  | _ => 0

/-- The pieces after so many bytes that belong to the piece before. -/
def piecesAfter : Nat → Bytes → List Piece
  | _, [] => []
  | skip + 1, _ :: rest => piecesAfter skip rest
  | 0, b :: rest =>
    if b.toNat < 0x80 then .ascii b :: piecesAfter 0 rest
    else match width (b :: rest) with
      | 0 => .bad b :: piecesAfter 0 rest
      | n + 1 => .wide (b :: rest.take n) :: piecesAfter n rest

def pieces (s : Bytes) : List Piece := piecesAfter 0 s

def Piece.WF : Piece → Prop
  | .ascii b => b.toNat < 0x80
  | .wide bytes => bytes ≠ [] ∧ width bytes = bytes.length
  | .bad _ => False

instance : DecidablePred Piece.WF := fun p => by
  cases p <;> unfold Piece.WF <;> infer_instance

/-- `utf8.ValidString`. -/
def Valid (s : Bytes) : Prop := ∀ p ∈ pieces s, p.WF

instance (s : Bytes) : Decidable (Valid s) := List.decidableBAll _ _

/-! Widths. -/

theorem width_le (s : Bytes) : width s ≤ s.length := by
  unfold width
  repeat' split
  all_goals simp

theorem width_pos_head {b : UInt8} {rest : Bytes} (h : width (b :: rest) ≠ 0) : 0x80 ≤ b.toNat := by
  unfold width at h
  split at h
  · next heq =>
    cases heq
    split at h
    · omega
    · split at h
      · omega
      · exact absurd rfl h
  · exact absurd rfl h

variable {s : Bytes} {ps : List Piece}

/-- What follows a character does not change where it ends. -/
theorem width_take_append (rest : Bytes) (h : width s ≠ 0) :
    width (s.take (width s) ++ rest) = width s := by
  match s with
  | [] | [_] => exact absurd rfl h
  | b₀ :: b₁ :: tail =>
    by_cases h₂ : 0xc2 ≤ b₀.toNat ∧ b₀.toNat ≤ 0xdf
    · cases hc : cont b₁ <;> simp_all [width]
    · by_cases h₃ : 0xe0 ≤ b₀.toNat ∧ b₀.toNat ≤ 0xf4
      · cases hs : second b₀ b₁ with
        | false => simp [width, h₂, h₃, hs] at h
        | true =>
          match tail with
          | [] => simp [width, h₂, h₃, hs] at h
          | b₂ :: tail =>
            cases hc : cont b₂ with
            | false => simp [width, h₂, h₃, hs, hc] at h
            | true =>
              by_cases hle : b₀.toNat ≤ 0xef
              · simp [width, h₂, h₃, hs, hc, hle]
              · match tail with
                | [] => simp [width, h₂, h₃, hs, hc, hle] at h
                | b₃ :: tail =>
                  cases hc' : cont b₃ <;> simp [width, h₂, h₃, hs, hc, hle, hc'] at h ⊢
      · simp [width, h₂, h₃] at h

theorem width_append (h : width s = s.length) (hne : s ≠ []) (rest : Bytes) :
    width (s ++ rest) = s.length := by
  have hw := width_take_append rest (h ▸ (List.length_pos_of_ne_nil hne).ne' : width s ≠ 0)
  rwa [h, List.take_length] at hw

/-! Pieces. -/

theorem piecesAfter_eq (n : Nat) (s : Bytes) : piecesAfter n s = pieces (s.drop n) := by
  induction n generalizing s with
  | zero => rfl
  | succ n ih =>
    cases s with
    | nil => rfl
    | cons b rest => exact ih rest

@[simp] theorem pieces_nil : pieces [] = [] := rfl

theorem pieces_cons (b : UInt8) (rest : Bytes) : pieces (b :: rest) =
    if b.toNat < 0x80 then .ascii b :: pieces rest else match width (b :: rest) with
      | 0 => .bad b :: pieces rest
      | n + 1 => .wide (b :: rest.take n) :: pieces (rest.drop n) := by
  unfold pieces
  rw [piecesAfter]
  split
  · rfl
  · split
    · rfl
    · rw [piecesAfter_eq]; rfl

theorem flatMap_pieces (s : Bytes) : (pieces s).flatMap Piece.bytes = s := by
  induction hn : s.length using Nat.strong_induction_on generalizing s with
  | _ n ih =>
    cases s with
    | nil => rfl
    | cons b rest =>
      simp only [List.length_cons] at hn
      rw [pieces_cons]
      split
      · simp [Piece.bytes, ih rest.length (by omega) rest rfl]
      · split
        · simp [Piece.bytes, ih rest.length (by omega) rest rfl]
        · next k hk =>
          have hlen : (rest.drop k).length < n := by
            rw [List.length_drop]
            omega
          rw [List.flatMap_cons, ih _ hlen (rest.drop k) rfl]
          simp [Piece.bytes]

theorem wf_or_bad {p : Piece} (h : p ∈ pieces s) : p.WF ∨ ∃ b, p = .bad b := by
  induction hn : s.length using Nat.strong_induction_on generalizing s with
  | _ n ih =>
    cases s with
    | nil => cases h
    | cons b rest =>
      simp only [List.length_cons] at hn
      rw [pieces_cons] at h
      split at h
      · next hb =>
        rcases List.mem_cons.mp h with rfl | h
        · exact .inl hb
        · exact ih rest.length (by omega) h rfl
      · split at h
        · rcases List.mem_cons.mp h with rfl | h
          · exact .inr ⟨b, rfl⟩
          · exact ih rest.length (by omega) h rfl
        · next k hk =>
          rcases List.mem_cons.mp h with rfl | h
          · left
            have hw := width_take_append [] (hk ▸ k.succ_ne_zero : width (b :: rest) ≠ 0)
            have hle := width_le (b :: rest)
            rw [List.append_nil] at hw
            rw [hk] at hw hle
            rw [List.take_succ_cons] at hw
            refine ⟨by simp, hw.trans ?_⟩
            simp only [List.length_cons, List.length_take] at hle ⊢
            omega
          · have hlen : (rest.drop k).length < n := by
              rw [List.length_drop]
              omega
            exact ih _ hlen h rfl

theorem pieces_append {p : Piece} (h : p.WF) (rest : Bytes) :
    pieces (p.bytes ++ rest) = p :: pieces rest := by
  cases p with
  | bad b => exact h.elim
  | ascii b =>
    change b.toNat < 0x80 at h
    change pieces (b :: rest) = _
    rw [pieces_cons, if_pos h]
  | wide bytes =>
    obtain ⟨hne, hw⟩ := h
    cases bytes with
    | nil => exact absurd rfl hne
    | cons b tail =>
      have happend := width_append hw hne rest
      have hb : 0x80 ≤ b.toNat := width_pos_head (by rw [hw]; simp)
      change pieces (b :: (tail ++ rest)) = _
      rw [pieces_cons, if_neg (by omega)]
      rw [List.cons_append] at happend
      rw [happend]
      simp

/-- Characters put together are cut at the same places. -/
theorem pieces_flatMap (h : ∀ p ∈ ps, p.WF) (rest : Bytes) :
    pieces (ps.flatMap Piece.bytes ++ rest) = ps ++ pieces rest := by
  induction ps with
  | nil => rfl
  | cons p ps ih =>
    rw [List.flatMap_cons, List.append_assoc, pieces_append (h p List.mem_cons_self),
      ih fun q hq => h q (List.mem_cons_of_mem _ hq)]
    rfl

theorem pieces_flatMap_eq (h : ∀ p ∈ ps, p.WF) : pieces (ps.flatMap Piece.bytes) = ps := by
  simpa using pieces_flatMap h []

theorem valid_flatMap (h : ∀ p ∈ ps, p.WF) : Valid (ps.flatMap Piece.bytes) := by
  unfold Valid
  rwa [pieces_flatMap_eq h]

theorem Valid.append {t : Bytes} (hs : Valid s) (ht : Valid t) : Valid (s ++ t) := by
  intro p hp
  rw [← flatMap_pieces s, pieces_flatMap hs] at hp
  exact (List.mem_append.mp hp).elim (hs p) (ht p)

theorem valid_nil : Valid [] := fun _ h => by cases h

theorem valid_of_ascii (h : ∀ b ∈ s, b.toNat < 0x80) : Valid s := by
  have hs : (s.map Piece.ascii).flatMap Piece.bytes = s := by
    rw [List.flatMap_map]
    exact List.flatMap_singleton' s
  rw [← hs]
  refine valid_flatMap fun p hp => ?_
  obtain ⟨b, hb, rfl⟩ := List.mem_map.mp hp
  exact h b hb

/-! Code points. -/

/-- `utf8.AppendRune` for a code point up to U+10FFFF that is no surrogate. -/
def encodeRune (n : Nat) : Bytes :=
  if n < 0x80 then [UInt8.ofNat n]
  else if n < 0x800 then [UInt8.ofNat (0xc0 + n / 64), UInt8.ofNat (0x80 + n % 64)]
  else if n < 0x10000 then
    [UInt8.ofNat (0xe0 + n / 4096), UInt8.ofNat (0x80 + n / 64 % 64), UInt8.ofNat (0x80 + n % 64)]
  else [UInt8.ofNat (0xf0 + n / 262144), UInt8.ofNat (0x80 + n / 4096 % 64),
    UInt8.ofNat (0x80 + n / 64 % 64), UInt8.ofNat (0x80 + n % 64)]

def isSurrogate (n : Nat) : Bool := 0xd800 ≤ n && n < 0xe000

theorem valid_of_wf {p : Piece} (h : p.WF) : Valid p.bytes := by
  have : Valid ([p].flatMap Piece.bytes) := valid_flatMap (by simpa using h)
  simpa using this

theorem valid_encodeRune {n : Nat} (h : n < 0x110000) (hs : isSurrogate n = false) :
    Valid (encodeRune n) := by
  simp only [isSurrogate, Bool.and_eq_false_iff, decide_eq_false_iff_not] at hs
  unfold encodeRune
  split
  · refine valid_of_wf (p := .ascii _) ?_
    change (UInt8.ofNat n).toNat < _
    simp
    omega
  · split
    · refine valid_of_wf (p := .wide _) ⟨by simp, ?_⟩
      have h₀ : (UInt8.ofNat (0xc0 + n / 64)).toNat = 0xc0 + n / 64 := by simp; omega
      have h₁ : (UInt8.ofNat (0x80 + n % 64)).toNat = 0x80 + n % 64 := by simp; omega
      have hc : cont (UInt8.ofNat (0x80 + n % 64)) = true := by
        simp only [cont, h₁, Bool.and_eq_true, decide_eq_true_eq]; omega
      simp only [width, h₀, hc, if_true]
      rw [if_pos (by omega)]
      rfl
    · split
      · refine valid_of_wf (p := .wide _) ⟨by simp, ?_⟩
        have h₀ : (UInt8.ofNat (0xe0 + n / 4096)).toNat = 0xe0 + n / 4096 := by simp; omega
        have h₁ : (UInt8.ofNat (0x80 + n / 64 % 64)).toNat = 0x80 + n / 64 % 64 := by simp; omega
        have h₂ : (UInt8.ofNat (0x80 + n % 64)).toNat = 0x80 + n % 64 := by simp; omega
        have hc : cont (UInt8.ofNat (0x80 + n % 64)) = true := by
          simp only [cont, h₂, Bool.and_eq_true, decide_eq_true_eq]; omega
        have hsecond : second (UInt8.ofNat (0xe0 + n / 4096)) (UInt8.ofNat (0x80 + n / 64 % 64)) =
            true := by
          simp only [second, cont, h₀, h₁]
          repeat' split
          all_goals simp only [Bool.and_eq_true, decide_eq_true_eq]; omega
        simp only [width, h₀, hc, hsecond, if_true]
        rw [if_neg (by omega), if_pos (by omega), if_pos (by omega)]
        rfl
      · refine valid_of_wf (p := .wide _) ⟨by simp, ?_⟩
        have h₀ : (UInt8.ofNat (0xf0 + n / 262144)).toNat = 0xf0 + n / 262144 := by simp; omega
        have h₁ : (UInt8.ofNat (0x80 + n / 4096 % 64)).toNat = 0x80 + n / 4096 % 64 := by
          simp; omega
        have h₂ : (UInt8.ofNat (0x80 + n / 64 % 64)).toNat = 0x80 + n / 64 % 64 := by simp; omega
        have h₃ : (UInt8.ofNat (0x80 + n % 64)).toNat = 0x80 + n % 64 := by simp; omega
        have hc : cont (UInt8.ofNat (0x80 + n / 64 % 64)) = true := by
          simp only [cont, h₂, Bool.and_eq_true, decide_eq_true_eq]; omega
        have hc' : cont (UInt8.ofNat (0x80 + n % 64)) = true := by
          simp only [cont, h₃, Bool.and_eq_true, decide_eq_true_eq]; omega
        have hsecond : second (UInt8.ofNat (0xf0 + n / 262144))
            (UInt8.ofNat (0x80 + n / 4096 % 64)) = true := by
          simp only [second, cont, h₀, h₁]
          repeat' split
          all_goals simp only [Bool.and_eq_true, decide_eq_true_eq]; omega
        simp only [width, h₀, hc, hc', hsecond, if_true]
        rw [if_neg (by omega), if_pos (by omega), if_neg (by omega)]
        rfl

/-! White space. -/

def wideSpaces : List Nat :=
  [0x85, 0xa0, 0x1680, 0x2028, 0x2029, 0x202f, 0x205f, 0x3000] ++ (List.range 11).map (0x2000 + ·)

/-- `unicode.IsSpace`. -/
def Piece.isSpace : Piece → Bool
  | .ascii b => [9, 10, 11, 12, 13, 32].contains b
  | .wide bytes => (wideSpaces.map encodeRune).contains bytes
  | .bad _ => false

/-- `strings.TrimSpace`. -/
def trimSpace (s : Bytes) : Bytes :=
  (((pieces s).dropWhile Piece.isSpace).reverse.dropWhile Piece.isSpace).reverse.flatMap Piece.bytes

end Utf8
