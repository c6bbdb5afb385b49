import Mathlib.Data.List.Dedup
import Mathlib.Data.List.Infix

/- A file tree below one directory, as the calls of a file system see it.

   1. A `Disk` maps a path, the list of its names, to a directory, a file or
      nothing. The directory above everything that exists exists: that is a field,
      so no operation can build a disk without it. A finite list covers the paths,
      in the order a listing gives them, which is not specified.
   2. `mkdir`, `write`, `rename`, `remove` and `unlink` with the errors the calls return.
      `rename` carries the whole tree below the source and replaces a file but no
      directory.
   3. `under p` is the tree at `p`. What an operation does is said of the trees: the
      one it names, and nothing `Apart` from it (`OnlyAt`). -/
namespace FileTree

variable {ν β : Type}

inductive Node (β : Type) where
  | dir
  | file (content : β)
  deriving DecidableEq

inductive IoError where
  | notExist
  | exist
  | notDir
  | isDir
  | notEmpty
  | invalid
  deriving DecidableEq

instance decidableDir (o : Option (Node β)) : Decidable (o = some .dir) :=
  match o with
  | some .dir => isTrue rfl
  | some (.file _) => isFalse (by simp)
  | none => isFalse (by simp)

/-- What stands at a path and below it. -/
abbrev Tree (ν β : Type) := List ν → Option (Node β)

def Tree.empty : Tree ν β := fun _ => none

structure Disk (ν β : Type) where
  node : List ν → Option (Node β)
  paths : List (List ν)
  listed : ∀ p, node p ≠ none → p ∈ paths
  root : node [] = some .dir
  rooted : ∀ p n, node (p ++ [n]) ≠ none → node p = some .dir

namespace Disk

def under (d : Disk ν β) (p : List ν) : Tree ν β := fun x => d.node (p ++ x)

variable {d : Disk ν β} {p : List ν}

theorem node_of_under {d' : Disk ν β} (h : d.under p = d'.under p) : d.node p = d'.node p := by
  have := congrFun h []
  simpa only [under, List.append_nil] using this

theorem under_of_none (h : d.node p = none) : d.under p = Tree.empty := by
  funext x
  show d.node (p ++ x) = none
  induction x using List.reverseRecOn with
  | nil => simpa using h
  | append_singleton x n ih =>
    by_contra hn
    have := d.rooted (p ++ x) n (by rwa [List.append_assoc])
    rw [ih] at this
    cases this

theorem under_eq_empty : d.under p = Tree.empty ↔ d.node p = none := by
  refine ⟨fun h => ?_, under_of_none⟩
  have := congrFun h []
  simpa only [under, Tree.empty, List.append_nil] using this

theorem under_of_file {n : ν} (h : d.node p ≠ some .dir) : d.node (p ++ [n]) = none := by
  by_contra hn
  exact h (d.rooted p n hn)

end Disk

/-! Paths that do not lie on one line. -/

/-- Neither path leads to the other. -/
def Apart (p q : List ν) : Prop := ¬p <+: q ∧ ¬q <+: p

variable {p q : List ν}

theorem Apart.symm (h : Apart p q) : Apart q p := ⟨h.2, h.1⟩

theorem Apart.below {x : List ν} (h : Apart p q) (hx : p <+: x) : Apart x q := by
  refine ⟨fun hq => h.1 (hx.trans hq), fun hq => ?_⟩
  rcases List.prefix_or_prefix_of_prefix hx hq with h' | h'
  · exact h.1 h'
  · exact h.2 h'

theorem Apart.not_above (h : Apart p q) (x : List ν) : ¬p <+: q ++ x := by
  intro hp
  rcases List.prefix_or_prefix_of_prefix hp (List.prefix_append q x) with h' | h'
  · exact h.1 h'
  · exact h.2 h'

theorem apart_of_head {a b : ν} (h : a ≠ b) : Apart (a :: p) (b :: q) :=
  ⟨fun hp => h (List.cons_prefix_cons.mp hp).1, fun hp => h (List.cons_prefix_cons.mp hp).1.symm⟩

theorem Apart.cons (a : ν) (h : Apart p q) : Apart (a :: p) (a :: q) :=
  ⟨fun hp => h.1 (List.cons_prefix_cons.mp hp).2, fun hp => h.2 (List.cons_prefix_cons.mp hp).2⟩

namespace Disk

/-- Only the trees at the paths `S` differ. -/
def OnlyAt (S : List (List ν)) (d d' : Disk ν β) : Prop :=
  ∀ r, (∀ p ∈ S, Apart p r) → d'.under r = d.under r

variable {d' : Disk ν β} {r q p : List ν} {n : ν} {x : Node β} {content : β}

theorem OnlyAt.node {S : List (List ν)} {d : Disk ν β} (h : OnlyAt S d d')
    (hr : ∀ p ∈ S, Apart p r) : d'.node r = d.node r := node_of_under (h r hr)

variable [DecidableEq ν]

/-- Puts `x` at `q ++ [n]`, where there is no directory. -/
def put (d : Disk ν β) (q : List ν) (n : ν) (x : Node β) (parent : d.node q = some .dir)
    (leaf : d.node (q ++ [n]) ≠ some .dir) : Disk ν β where
  node r := if r = q ++ [n] then some x else d.node r
  paths := (q ++ [n]) :: d.paths
  listed r h := by
    by_cases hr : r = q ++ [n]
    · simp [hr]
    · rw [if_neg hr] at h
      exact List.mem_cons_of_mem _ (d.listed r h)
  root := by
    rw [if_neg (by simp)]
    exact d.root
  rooted r m h := by
    have hself : q ≠ q ++ [n] := by simp
    by_cases hr : r ++ [m] = q ++ [n]
    · obtain ⟨rfl, rfl⟩ : r = q ∧ m = n := by simpa using hr
      rw [if_neg hself]
      exact parent
    · rw [if_neg hr] at h
      have hdir := d.rooted r m h
      have hne : r ≠ q ++ [n] := by
        rintro rfl
        exact leaf hdir
      rw [if_neg hne]
      exact hdir

/-- Takes away `p` and everything below it. -/
def unlink (d : Disk ν β) (p : List ν) (hp : p ≠ []) : Disk ν β where
  node r := if p <+: r then none else d.node r
  paths := d.paths
  listed r h := by
    split at h
    · exact absurd rfl h
    · exact d.listed r h
  root := by
    rw [if_neg (by simpa using hp)]
    exact d.root
  rooted r m h := by
    split at h
    · exact absurd rfl h
    · next hr =>
      rw [if_neg (fun h' => hr (h'.trans (List.prefix_append r [m])))]
      exact d.rooted r m h

/-- Carries the tree at `p` to `q ++ [n]`, where there is no directory. -/
def move (d : Disk ν β) (p q : List ν) (n : ν) (hp : p ≠ []) (parent : d.node q = some .dir)
    (outside : ¬p <+: q ++ [n]) : Disk ν β where
  node r := if q ++ [n] <+: r then d.node (p ++ r.drop (q ++ [n]).length)
    else if p <+: r then none else d.node r
  paths := d.paths.map fun r => if p <+: r then (q ++ [n]) ++ r.drop p.length else r
  listed r h := by
    by_cases hr : q ++ [n] <+: r
    · rw [if_pos hr] at h
      obtain ⟨x, rfl⟩ := hr
      rw [List.drop_left] at h
      refine List.mem_map.mpr ⟨p ++ x, d.listed _ h, ?_⟩
      rw [if_pos (List.prefix_append p x), List.drop_left]
    · rw [if_neg hr] at h
      split at h
      · exact absurd rfl h
      · next hr => exact List.mem_map.mpr ⟨r, d.listed r h, if_neg hr⟩
  root := by
    rw [if_neg (by simp), if_neg (by simpa using hp)]
    exact d.root
  rooted r m h := by
    have hq : ¬p <+: q := fun h' => outside (h'.trans (List.prefix_append q [n]))
    have hself : ¬q ++ [n] <+: q := fun h' => absurd h'.length_le (by simp)
    by_cases hr : q ++ [n] <+: r
    · obtain ⟨x, rfl⟩ := hr
      rw [if_pos ((List.prefix_append _ x).trans (List.prefix_append _ [m])), List.append_assoc,
        List.drop_left, ← List.append_assoc] at h
      rw [if_pos (List.prefix_append _ x), List.drop_left]
      exact d.rooted _ m h
    · rw [if_neg hr]
      by_cases hrm : q ++ [n] <+: r ++ [m]
      · -- the new node itself: its directory was there before
        rcases List.prefix_concat_iff.mp hrm with he | he
        · obtain ⟨rfl, rfl⟩ : q = r ∧ n = m := by simpa using he
          rw [if_neg hq]
          exact parent
        · exact absurd he hr
      · rw [if_neg hrm] at h
        split at h
        · exact absurd rfl h
        · next hpm =>
          rw [if_neg (fun h' => hpm (h'.trans (List.prefix_append r [m])))]
          exact d.rooted r m h

/-! What stands at a path after each. -/

variable {d : Disk ν β}

theorem under_put {parent leaf} (h : ¬r <+: q ++ [n]) :
    (d.put q n x parent leaf).under r = d.under r := by
  funext y
  show (if r ++ y = q ++ [n] then some x else d.node (r ++ y)) = _
  have hne : r ++ y ≠ q ++ [n] := fun he => h ⟨y, he⟩
  rw [if_neg hne]
  rfl

theorem put_onlyAt {parent leaf} : OnlyAt [q ++ [n]] d (d.put q n x parent leaf) :=
  fun _ hr => under_put (hr _ List.mem_cons_self).2

theorem node_put {parent leaf} :
    (d.put q n x parent leaf).node r = if r = q ++ [n] then some x else d.node r := rfl

theorem unlink_onlyAt {x : List ν} {hx} (h : p <+: x) : OnlyAt [p] d (d.unlink x hx) := by
  intro r hr
  have hxr := (hr p List.mem_cons_self).below h
  funext y
  show (if x <+: r ++ y then none else d.node (r ++ y)) = _
  rw [if_neg (hxr.not_above y)]
  rfl

theorem node_unlink {hp} : (d.unlink p hp).node r = if p <+: r then none else d.node r := rfl

theorem under_unlink_below {hp} (h : p <+: r) : (d.unlink p hp).under r = Tree.empty :=
  under_of_none (by rw [node_unlink, if_pos h])

theorem under_move_target {hp parent outside} :
    (d.move p q n hp parent outside).under (q ++ [n]) = d.under p := by
  funext y
  show (if q ++ [n] <+: q ++ [n] ++ y then _ else _) = _
  rw [if_pos (List.prefix_append _ y), List.drop_left]
  rfl

theorem under_move_source {hp parent outside} (h : Apart (q ++ [n]) p) :
    (d.move p q n hp parent outside).under p = Tree.empty := by
  funext y
  show (if q ++ [n] <+: p ++ y then _ else if p <+: p ++ y then none else _) = _
  rw [if_neg (h.not_above y), if_pos (List.prefix_append p y)]
  rfl

theorem move_onlyAt {hp parent outside} :
    OnlyAt [p, q ++ [n]] d (d.move p q n hp parent outside) := by
  intro r hr
  have hs := hr p (by simp)
  have ht := hr (q ++ [n]) (by simp)
  funext y
  show (if q ++ [n] <+: r ++ y then _ else if p <+: r ++ y then none else _) = _
  rw [if_neg (ht.not_above y), if_neg (hs.not_above y)]
  rfl

theorem node_move {hp parent outside} (hs : ¬p <+: r)
    (ht : ¬q ++ [n] <+: r) : (d.move p q n hp parent outside).node r = d.node r := by
  show (if q ++ [n] <+: r then _ else if p <+: r then none else _) = _
  rw [if_neg ht, if_neg hs]

/-- What there is at `p` and below it. -/
def listing (d : Disk ν β) (p : List ν) : List (List ν) :=
  (d.paths.filter fun r => p <+: r ∧ d.node r ≠ none).dedup

theorem of_mem_listing (h : r ∈ d.listing p) : p <+: r := by
  have := (List.mem_filter.mp (List.mem_dedup.mp h)).2
  exact (of_decide_eq_true this).1

/-! The calls. -/

/-- `os.Mkdir`. -/
def mkdir (d : Disk ν β) (q : List ν) (n : ν) : Except IoError (Disk ν β) :=
  if leaf : d.node (q ++ [n]) = none then
    if parent : d.node q = some .dir then .ok (d.put q n .dir parent (by simp [leaf]))
    else .error .notExist
  else .error .exist

/-- `os.OpenFile` for writing, with `O_CREATE`, and the content written to it. -/
def write (d : Disk ν β) (q : List ν) (n : ν) (content : β) : Except IoError (Disk ν β) :=
  if leaf : d.node (q ++ [n]) = some .dir then .error .isDir
  else if parent : d.node q = some .dir then .ok (d.put q n (.file content) parent leaf)
  else .error .notExist

/-- `os.ReadFile`. -/
def read (d : Disk ν β) (p : List ν) : Except IoError β :=
  match d.node p with
  | none => .error .notExist
  | some .dir => .error .isDir
  | some (.file c) => .ok c

/-- `os.Rename`. -/
def rename (d : Disk ν β) (p q : List ν) (n : ν) : Except IoError (Disk ν β) :=
  if d.node (q ++ [n]) = some .dir then .error .exist
  else if d.node p = none then .error .notExist
  else if d.node p = some .dir ∧ d.node (q ++ [n]) ≠ none then .error .notDir
  else if h : p ≠ [] ∧ ¬p <+: q ++ [n] then
    if parent : d.node q = some .dir then .ok (d.move p q n h.1 parent h.2)
    else .error .notExist
  else .error .invalid

/-- `os.Remove`: of a file, or a directory with nothing in it. -/
def remove (d : Disk ν β) (p : List ν) : Except IoError (Disk ν β) :=
  if d.node p = none then .error .notExist
  else if d.paths.any (fun r => p <+: r ∧ r ≠ p ∧ d.node r ≠ none) then .error .notEmpty
  else if h : p ≠ [] then .ok (d.unlink p h)
  else .error .invalid

theorem mkdir_ok (h : d.mkdir q n = .ok d') :
    d.node (q ++ [n]) = none ∧ ∃ parent leaf, d' = d.put q n .dir parent leaf := by
  unfold mkdir at h
  split at h
  · next leaf =>
    split at h
    · next parent => exact ⟨leaf, parent, _, (Except.ok.inj h).symm⟩
    · cases h
  · cases h

theorem write_run (parent : d.node q = some .dir) (leaf : d.node (q ++ [n]) ≠ some .dir)
    (content : β) : d.write q n content = .ok (d.put q n (.file content) parent leaf) := by
  rw [write, dif_neg leaf, dif_pos parent]

theorem rename_run (source : d.node p ≠ none) (parent : d.node q = some .dir)
    (target : d.node (q ++ [n]) = none) (hp : p ≠ []) (outside : ¬p <+: q ++ [n]) :
    d.rename p q n = .ok (d.move p q n hp parent outside) := by
  rw [rename, if_neg (by simp [target]), if_neg source, if_neg (by simp [target]),
    dif_pos ⟨hp, outside⟩, dif_pos parent]

theorem rename_file (source : d.node p = some (.file content)) (parent : d.node q = some .dir)
    (target : d.node (q ++ [n]) ≠ some .dir) (hp : p ≠ []) (outside : ¬p <+: q ++ [n]) :
    d.rename p q n = .ok (d.move p q n hp parent outside) := by
  rw [rename, if_neg target, if_neg (by simp [source]), if_neg (by simp [source]),
    dif_pos ⟨hp, outside⟩, dif_pos parent]

theorem remove_ok (h : d.remove p = .ok d') : ∃ hp, d' = d.unlink p hp := by
  unfold remove at h
  split at h
  · cases h
  · split at h
    · cases h
    · split at h
      · next hp => exact ⟨hp, (Except.ok.inj h).symm⟩
      · cases h

theorem remove_file (h : d.node p = some (.file content)) (hp : p ≠ []) :
    d.remove p = .ok (d.unlink p hp) := by
  have hbelow : ¬d.paths.any (fun r => p <+: r ∧ r ≠ p ∧ d.node r ≠ none) = true := by
    simp only [List.any_eq_true, decide_eq_true_eq, not_exists, not_and]
    rintro r - ⟨x, rfl⟩ hne
    rcases x with _ | ⟨n, x⟩
    · simp at hne
    · -- the first name below a file does not exist, so nothing below that does
      have hnone : d.node (p ++ [n]) = none := under_of_file (by simp [h])
      have := congrFun (under_of_none hnone) x
      simpa [under, Tree.empty] using this
  rw [remove, if_neg (by simp [h]), if_neg hbelow, dif_pos hp]

end Disk

end FileTree
