import SesameServer.Restore.Calls

/- The data directory as a restore sees it: for each managed name, what is in place,
   what is staged and what is kept aside.

   1. `Setup` is what a replacement starts from and the two directory names it uses,
      which are none of the other names it knows (`Setup.path_apart` and its companions).
   2. `Shelves` is the abstract state, a tree for each name in each of the three
      slots. `Shows` relates it to a disk, on which everything else is as it was.
   3. `At` adds the journal. Each call then is a step on the shelves: a rename moves
      a tree from slot to slot (`At.move`), a removal empties one (`At.unlink`). -/
namespace Sesame.Ops

open Crash FileTree

variable {β : Type}

/-- A replacement of the items of `disk` by those staged. -/
structure Setup (β : Type) where
  disk : Disk Bytes β
  staging : Bytes
  aside : Bytes
  stagingName : ∃ rest, staging = stagingPrefix ++ rest ∧ Plain rest
  asideName : ∃ rest, aside = asidePrefix ++ rest ∧ Plain rest
  fresh : disk.node [aside] = none

namespace Setup

variable (X : Setup β)

def was (n : Bytes) : Tree Bytes β := X.disk.under [n]

def will (n : Bytes) : Tree Bytes β := X.disk.under [X.staging, n]

def old : List Bytes := managedItems.filter fun n => (X.disk.node [n]).isSome

def new : List Bytes := managedItems.filter fun n => (X.disk.node [X.staging, n]).isSome

def journal (phase : Phase) : Journal :=
  ⟨journalVersion, phase, X.staging, X.aside, X.old, X.new⟩

variable {n : Bytes}

theorem mem_old : n ∈ X.old ↔ n ∈ managedItems ∧ X.was n ≠ Tree.empty := by
  simp only [old, was, List.mem_filter, Option.isSome_iff_ne_none, ne_eq, Disk.under_eq_empty]

theorem mem_new : n ∈ X.new ↔ n ∈ managedItems ∧ X.will n ≠ Tree.empty := by
  simp only [new, will, List.mem_filter, Option.isSome_iff_ne_none, ne_eq, Disk.under_eq_empty]

theorem was_of_not_old (hn : n ∈ managedItems) (h : n ∉ X.old) : X.was n = Tree.empty := by
  by_contra hne
  exact h (X.mem_old.mpr ⟨hn, hne⟩)

theorem will_of_not_new (hn : n ∈ managedItems) (h : n ∉ X.new) : X.will n = Tree.empty := by
  by_contra hne
  exact h (X.mem_new.mpr ⟨hn, hne⟩)

theorem nodup_managed : managedItems.Nodup := by decide

theorem nodup_old : X.old.Nodup := nodup_managed.filter _

theorem nodup_new : X.new.Nodup := nodup_managed.filter _

/-! The names are told apart by how they begin. -/

theorem staging_ne (h : n.take stagingPrefix.length ≠ stagingPrefix) : X.staging ≠ n := by
  obtain ⟨rest, he, -⟩ := X.stagingName
  exact he ▸ append_ne h

theorem aside_ne (h : n.take asidePrefix.length ≠ asidePrefix) : X.aside ≠ n := by
  obtain ⟨rest, he, -⟩ := X.asideName
  exact he ▸ append_ne h

theorem staging_ne_managed (hn : n ∈ managedItems) : X.staging ≠ n :=
  X.staging_ne ((by decide : ∀ n ∈ managedItems, n.take stagingPrefix.length ≠ stagingPrefix) n hn)

theorem aside_ne_managed (hn : n ∈ managedItems) : X.aside ≠ n :=
  X.aside_ne ((by decide : ∀ n ∈ managedItems, n.take asidePrefix.length ≠ asidePrefix) n hn)

theorem aside_ne_staging : X.aside ≠ X.staging := by
  obtain ⟨rest, ha, -⟩ := X.asideName
  obtain ⟨rest', hs, -⟩ := X.stagingName
  have hr : asidePrefix.head? = some 114 := by decide
  have hdot : stagingPrefix.head? = some 46 := by decide
  intro h
  have hhead := congrArg List.head? h
  rw [ha, hs, List.head?_append, List.head?_append, hr, hdot] at hhead
  simp at hhead

def journalFiles : List Bytes := [journalName, journalTemp]

theorem name_mem : journalName ∈ journalFiles := List.mem_cons_self

theorem temp_mem : journalTemp ∈ journalFiles := List.mem_cons_of_mem _ List.mem_cons_self

theorem staging_ne_journal (hn : n ∈ journalFiles) : X.staging ≠ n :=
  X.staging_ne ((by decide : ∀ n ∈ journalFiles, n.take stagingPrefix.length ≠ stagingPrefix) n hn)

theorem aside_ne_journal (hn : n ∈ journalFiles) : X.aside ≠ n :=
  X.aside_ne ((by decide : ∀ n ∈ journalFiles, n.take asidePrefix.length ≠ asidePrefix) n hn)

theorem managed_ne_journal {m : Bytes} (hn : n ∈ managedItems) (hm : m ∈ journalFiles) : n ≠ m :=
  (by decide : ∀ n ∈ managedItems, ∀ m ∈ journalFiles, n ≠ m) n hn m hm

end Setup

/-! Slots. -/

inductive Slot where
  | place
  | staged
  | kept
  deriving DecidableEq

def Slot.dir (X : Setup β) : Slot → List Bytes
  | .place => []
  | .staged => [X.staging]
  | .kept => [X.aside]

def Slot.path (X : Setup β) (a : Slot) (n : Bytes) : List Bytes := a.dir X ++ [n]

/-- What no part of a restore touches: the other entries of the data directory, and
    whatever else could be in the directory the old items are kept in. -/
inductive Bystander (X : Setup β) : List Bytes → Prop where
  | entry {n : Bytes} (managed : n ∉ managedItems) (journal : n ∉ Setup.journalFiles)
      (staging : n ≠ X.staging) (aside : n ≠ X.aside) : Bystander X [n]
  | aside {n : Bytes} (managed : n ∉ managedItems) : Bystander X [X.aside, n]

namespace Setup

variable {X : Setup β} {a b : Slot} {n m : Bytes} {p : List Bytes}

theorem path_apart (hn : n ∈ managedItems) (hm : m ∈ managedItems) (h : a ≠ b ∨ n ≠ m) :
    Apart (a.path X n) (b.path X m) := by
  have hsn := X.staging_ne_managed hn
  have hsm := X.staging_ne_managed hm
  have han := X.aside_ne_managed hn
  have ham := X.aside_ne_managed hm
  have has := X.aside_ne_staging
  cases a <;> cases b
  case place.place => exact apart_of_head (h.resolve_left (by simp))
  case staged.staged => exact (apart_of_head (h.resolve_left (by simp))).cons _
  case kept.kept => exact (apart_of_head (h.resolve_left (by simp))).cons _
  case place.staged => exact apart_of_head hsn.symm
  case place.kept => exact apart_of_head han.symm
  case staged.place => exact apart_of_head hsm
  case staged.kept => exact apart_of_head has.symm
  case kept.place => exact apart_of_head ham
  case kept.staged => exact apart_of_head has

theorem path_apart_bystander (hn : n ∈ managedItems) (hp : Bystander X p) :
    Apart (a.path X n) p := by
  cases hp with
  | entry managed _ staging aside =>
    have hne := ne_of_mem_of_not_mem hn managed
    cases a
    · exact apart_of_head hne
    · exact apart_of_head staging.symm
    · exact apart_of_head aside.symm
  | aside managed =>
    have hne := ne_of_mem_of_not_mem hn managed
    cases a
    · exact apart_of_head (X.aside_ne_managed hn).symm
    · exact apart_of_head X.aside_ne_staging.symm
    · exact (apart_of_head hne).cons _

theorem path_apart_journal (hn : n ∈ managedItems) (hm : m ∈ journalFiles) :
    Apart (a.path X n) [m] := by
  cases a
  · exact apart_of_head (managed_ne_journal hn hm)
  · exact apart_of_head (X.staging_ne_journal hm)
  · exact apart_of_head (X.aside_ne_journal hm)

theorem journal_apart_bystander (hm : m ∈ journalFiles) (hp : Bystander X p) : Apart [m] p := by
  cases hp with
  | entry _ journal _ _ => exact apart_of_head (ne_of_mem_of_not_mem hm journal)
  | aside _ => exact apart_of_head (X.aside_ne_journal hm).symm

theorem staging_apart_bystander (hp : Bystander X p) : Apart [X.staging] p := by
  cases hp with
  | entry _ _ staging _ => exact apart_of_head staging.symm
  | aside _ => exact apart_of_head X.aside_ne_staging.symm

end Setup

/-! The shelves. -/

/-- What the three slots of one name hold. -/
abbrev Item (β : Type) := Slot → Tree Bytes β

abbrev Shelves (β : Type) := Bytes → Item β

/-- The item after a move from slot `a` to slot `b`. -/
def Item.move (i : Item β) (a b : Slot) : Item β :=
  fun c => if c = b then i a else if c = a then Tree.empty else i c

theorem forall_update {p : Bytes → Item β → Prop} {v : Shelves β} {n : Bytes} {i : Item β}
    (h : ∀ m ∈ managedItems, m ≠ n → p m (v m)) (hn : p n i) :
    ∀ m ∈ managedItems, p m (Function.update v n i m) := by
  intro m hm
  by_cases hmn : m = n
  · rw [hmn, Function.update_self]
    exact hn
  · rw [Function.update_of_ne hmn]
    exact h m hm hmn

/-- The disk shows the shelves `v`, and bystanders are as they were. -/
structure Shows (X : Setup β) (d : Disk Bytes β) (v : Shelves β) : Prop where
  shelf : ∀ n ∈ managedItems, ∀ a, d.under (a.path X n) = v n a
  still : ∀ p, Bystander X p → d.under p = X.disk.under p

theorem Shows.node {X : Setup β} {d : Disk Bytes β} {v : Shelves β} (h : Shows X d v) {a : Slot}
    {n : Bytes} (hn : n ∈ managedItems) : d.node (a.path X n) = none ↔ v n a = Tree.empty := by
  rw [← h.shelf n hn a, Disk.under_eq_empty]

/-- The shelves, the journal and whether it has said `committed`. -/
structure At (codec : Codec β) (X : Setup β) (v : Shelves β) (j : Option Journal)
    (committed : Bool) (s : Site β) : Prop where
  shelves : Shows X s.disk v
  journal : s.disk.node [journalName] = j.map fun j => .file (codec.encode j)
  temp : s.disk.node [journalTemp] ≠ some .dir
  ghost : s.committed = committed

namespace At

variable {codec : Codec β} {X : Setup β} {v : Shelves β} {j : Option Journal} {c : Bool}
  {s : Site β} {a b : Slot} {n : Bytes}

variable {d : Disk Bytes β}

section
variable (h : At codec X v j c s)
include h

theorem change {S : List (List Bytes)}
    (only : Disk.OnlyAt S s.disk d) (apart : ∀ p ∈ S, ∀ q, Bystander X q → Apart p q)
    (journal : ∀ p ∈ S, ∀ m ∈ Setup.journalFiles, Apart p [m]) {v' : Shelves β}
    (shelf : ∀ n ∈ managedItems, ∀ a, d.under (a.path X n) = v' n a) :
    At codec X v' j c { s with disk := d } where
  shelves :=
    { shelf := shelf
      still := fun q hq => (only q fun p hp => apart p hp q hq).trans (h.shelves.still q hq) }
  journal := (only.node fun p hp => journal p hp _ Setup.name_mem).trans h.journal
  temp := by
    rw [only.node fun p hp => journal p hp journalTemp Setup.temp_mem]
    exact h.temp
  ghost := h.ghost

theorem change_item (hn : n ∈ managedItems)
    {slots : List Slot} (only : Disk.OnlyAt (slots.map fun a => a.path X n) s.disk d) {i : Item β}
    (shelf : ∀ a, d.under (a.path X n) = i a) :
    At codec X (Function.update v n i) j c { s with disk := d } := by
  refine h.change only ?_ ?_ fun m hm b => ?_
  · intro p hp q hq
    obtain ⟨a, -, rfl⟩ := List.mem_map.mp hp
    exact Setup.path_apart_bystander hn hq
  · intro p hp m hm
    obtain ⟨a, -, rfl⟩ := List.mem_map.mp hp
    exact Setup.path_apart_journal hn hm
  · by_cases hmn : m = n
    · rw [hmn, Function.update_self]
      exact shelf b
    · rw [Function.update_of_ne hmn, ← h.shelves.shelf m hm b]
      refine only _ fun p hp => ?_
      obtain ⟨a, -, rfl⟩ := List.mem_map.mp hp
      exact Setup.path_apart hn hm (Or.inr (Ne.symm hmn))

theorem move (hn : n ∈ managedItems) (hab : a ≠ b) {hp parent outside} :
    At codec X (Function.update v n ((v n).move a b)) j c
      { s with disk := s.disk.move (a.path X n) (b.dir X) n hp parent outside } := by
  have only : Disk.OnlyAt ([a, b].map fun a => a.path X n) s.disk
      (s.disk.move (a.path X n) (b.dir X) n hp parent outside) := Disk.move_onlyAt
  refine h.change_item hn only fun k => ?_
  unfold Item.move
  split
  · next hk =>
    rw [hk, ← h.shelves.shelf n hn a]
    exact Disk.under_move_target
  · next hkb =>
    split
    · next hk =>
      rw [hk]
      exact Disk.under_move_source (Setup.path_apart hn hn (Or.inl hab.symm))
    · next hka =>
      rw [← h.shelves.shelf n hn k]
      refine only _ fun p hp => ?_
      simp only [List.map_cons, List.map_nil, List.mem_cons, List.not_mem_nil, or_false] at hp
      rcases hp with rfl | rfl
      · exact Setup.path_apart hn hn (Or.inl (Ne.symm hka))
      · exact Setup.path_apart hn hn (Or.inl (Ne.symm hkb))

theorem unlink (hn : n ∈ managedItems) {x : List Bytes} {hx}
    (below : a.path X n <+: x) : ∃ t, At codec X (Function.update v n (Function.update (v n) a t)) j c
      { s with disk := s.disk.unlink x hx } := by
  have only : Disk.OnlyAt ([a].map fun a => a.path X n) s.disk (s.disk.unlink x hx) :=
    Disk.unlink_onlyAt below
  refine ⟨(s.disk.unlink x hx).under (a.path X n), h.change_item hn only fun k => ?_⟩
  by_cases hk : k = a
  · rw [hk, Function.update_self]
  · rw [Function.update_of_ne hk, ← h.shelves.shelf n hn k]
    refine only _ fun p hp => ?_
    rw [List.mem_singleton.mp hp]
    exact Setup.path_apart hn hn (Or.inl (Ne.symm hk))

theorem unlink_staging {x : List Bytes} {hx} (below : [X.staging] <+: x) :
    ∃ t : Bytes → Tree Bytes β, At codec X (fun n => Function.update (v n) .staged (t n)) j c
      { s with disk := s.disk.unlink x hx } := by
  have only : ∀ r, Apart [X.staging] r → (s.disk.unlink x hx).under r = s.disk.under r :=
    fun r hr => Disk.unlink_onlyAt below r fun p hp => List.mem_singleton.mp hp ▸ hr
  refine ⟨fun n => (s.disk.unlink x hx).under [X.staging, n],
    h.change (Disk.unlink_onlyAt below) ?_ ?_ fun m hm k => ?_⟩
  · rintro p hp q hq
    exact List.mem_singleton.mp hp ▸ Setup.staging_apart_bystander hq
  · rintro p hp m hm
    exact List.mem_singleton.mp hp ▸ apart_of_head (X.staging_ne_journal hm)
  · cases k with
    | staged => rfl
    | place =>
      exact (only _ (apart_of_head (X.staging_ne_managed hm))).trans (h.shelves.shelf m hm .place)
    | kept =>
      exact (only _ (apart_of_head X.aside_ne_staging.symm)).trans (h.shelves.shelf m hm .kept)

/-- The removal of the directory the items were kept in, when none is left there. -/
theorem unlink_aside (empty : ∀ n ∈ managedItems, v n .kept = Tree.empty)
    {hx} : At codec X v j c { s with disk := s.disk.unlink [X.aside] hx } := by
  have only : ∀ r, Apart [X.aside] r →
      (s.disk.unlink [X.aside] hx).under r = s.disk.under r := fun r hr =>
    Disk.unlink_onlyAt List.prefix_rfl r fun p hp => List.mem_singleton.mp hp ▸ hr
  have file : ∀ m ∈ Setup.journalFiles,
      (s.disk.unlink [X.aside] hx).node [m] = s.disk.node [m] := fun m hm =>
    Disk.node_of_under (only _ (apart_of_head (X.aside_ne_journal hm)))
  have inside : ∀ m, (s.disk.unlink [X.aside] hx).under [X.aside, m] = Tree.empty := fun m =>
    Disk.under_unlink_below (List.prefix_append [X.aside] [m])
  refine ⟨⟨fun m hm k => ?_, fun q hq => ?_⟩, ?_, ?_, h.ghost⟩
  · cases k with
    | kept => exact (inside m).trans (empty m hm).symm
    | place =>
      exact (only _ (apart_of_head (X.aside_ne_managed hm))).trans (h.shelves.shelf m hm .place)
    | staged =>
      exact (only _ (apart_of_head X.aside_ne_staging)).trans (h.shelves.shelf m hm .staged)
  · cases hq with
    | entry managed journal staging aside =>
      exact (only _ (apart_of_head aside.symm)).trans
        (h.shelves.still _ (.entry managed journal staging aside))
    | @aside m managed =>
      -- the directory is a fresh one, so there was nothing in it at the start
      refine (inside m).trans ?_
      funext y
      exact (congrFun (Disk.under_of_none X.fresh) (m :: y)).symm
  · exact (file _ Setup.name_mem).trans h.journal
  · rw [file _ Setup.temp_mem]
    exact h.temp

end

/-! The journal's files. -/

/-- Nothing changed but the journal's files. -/
def JournalOnly (d d' : Disk Bytes β) : Prop :=
  ∀ r, (∀ m ∈ Setup.journalFiles, Apart [m] r) → d'.under r = d.under r

theorem journalOnly_of {d' : Disk Bytes β} {S : List (List Bytes)} (only : Disk.OnlyAt S d d')
    (hS : ∀ p ∈ S, ∃ m ∈ Setup.journalFiles, p = [m]) : JournalOnly d d' := by
  refine fun r hr => only r fun p hp => ?_
  obtain ⟨m, hm, rfl⟩ := hS p hp
  exact hr m hm

theorem write_journalOnly {m : Bytes} {x : Node β} (hm : m ∈ Setup.journalFiles)
    (parent leaf) : JournalOnly d (d.put [] m x parent leaf) :=
  journalOnly_of Disk.put_onlyAt fun _ hp => ⟨m, hm, List.mem_singleton.mp hp⟩

theorem unlink_journalOnly {m : Bytes} (hm : m ∈ Setup.journalFiles) (hx) :
    JournalOnly d (d.unlink [m] hx) :=
  journalOnly_of (Disk.unlink_onlyAt List.prefix_rfl) fun _ hp => ⟨m, hm, List.mem_singleton.mp hp⟩

theorem move_journalOnly (hp parent outside) :
    JournalOnly d (d.move [journalTemp] [] journalName hp parent outside) := by
  refine journalOnly_of Disk.move_onlyAt fun p hmem => ?_
  rcases List.mem_cons.mp hmem with rfl | hmem
  · exact ⟨journalTemp, Setup.temp_mem, rfl⟩
  · exact ⟨journalName, Setup.name_mem, List.mem_singleton.mp hmem⟩

theorem shows_of_journalOnly (h : At codec X v j c s) (only : JournalOnly s.disk d) : Shows X d v where
  shelf n hn a :=
    (only _ fun _ hm => (Setup.path_apart_journal hn hm).symm).trans (h.shelves.shelf n hn a)
  still p hp :=
    (only _ fun _ hm => Setup.journal_apart_bystander hm hp).trans (h.shelves.still p hp)

theorem temp_ne_name : journalTemp ≠ journalName := by decide

theorem write_temp (h : At codec X v j c s) {content : β} {parent leaf} :
    At codec X v j c { s with disk := s.disk.put [] journalTemp (.file content) parent leaf } where
  shelves := h.shows_of_journalOnly (write_journalOnly Setup.temp_mem parent leaf)
  journal := by
    rw [← h.journal, Disk.node_put, if_neg (by simpa using temp_ne_name.symm)]
  temp := by
    rw [Disk.node_put, if_pos (by simp)]
    simp
  ghost := h.ghost

/-- The journal put in place is the one in the temporary file. -/
theorem put_journal (h : At codec X v j c s) {state : Journal}
    (written : s.disk.node [journalTemp] = some (.file (codec.encode state))) {hp parent outside}
    {c' : Bool} : At codec X v (some state) c'
      ⟨s.disk.move [journalTemp] [] journalName hp parent outside, c'⟩ := by
  have only : JournalOnly s.disk (s.disk.move [journalTemp] [] journalName hp parent outside) :=
    move_journalOnly hp parent outside
  have target : (s.disk.move [journalTemp] [] journalName hp parent outside).under [journalName] =
      s.disk.under [journalTemp] := Disk.under_move_target
  have source : (s.disk.move [journalTemp] [] journalName hp parent outside).under [journalTemp] =
      Tree.empty := Disk.under_move_source (apart_of_head temp_ne_name.symm)
  refine ⟨h.shows_of_journalOnly only, (congrFun target []).trans written, ?_, rfl⟩
  rw [Disk.under_eq_empty.mp source]
  simp

theorem unlink_journal (h : At codec X v j c s) {hx} :
    At codec X v none c { s with disk := s.disk.unlink [journalName] hx } where
  shelves := h.shows_of_journalOnly (unlink_journalOnly Setup.name_mem hx)
  journal := by
    rw [Disk.node_unlink, if_pos List.prefix_rfl]
    rfl
  temp := by
    rw [Disk.node_unlink, if_neg (by simpa using temp_ne_name.symm)]
    exact h.temp
  ghost := h.ghost

theorem unlink_temp (h : At codec X v j c s) {hx} :
    At codec X v j c { s with disk := s.disk.unlink [journalTemp] hx } where
  shelves := h.shows_of_journalOnly (unlink_journalOnly Setup.temp_mem hx)
  journal := by
    rw [← h.journal, Disk.node_unlink, if_neg (by simpa using temp_ne_name)]
  temp := by
    rw [Disk.node_unlink, if_pos List.prefix_rfl]
    simp
  ghost := h.ghost

end At

/-! Item by item. -/

/-- A loop over some of the items: `J` relates the shelves to the directory, `todo` holds
    of an item before its turn and `done` after it, also of one that has no turn. -/
theorem forEach_items {faults : Bool} {names : List Bytes} {body : Bytes → Fs β Unit}
    {E : Failure → World (Site β) → Prop} {C : Site β → Prop} {J : Shelves β → Site β → Prop}
    (todo done : Bytes → Item β → Prop) (hmem : ∀ n ∈ names, n ∈ managedItems) (hnodup : names.Nodup)
    (skip : ∀ n ∈ managedItems, n ∉ names → ∀ i, todo n i → done n i)
    (step : ∀ v, ∀ n ∈ names, todo n (v n) → (∀ m ∈ managedItems, todo m (v m) ∨ done m (v m)) →
      Runs faults (J v) (body n) (fun _ s => ∃ i, done n i ∧ J (Function.update v n i) s) E C) :
    Runs faults (fun s => ∃ v, (∀ n ∈ managedItems, todo n (v n)) ∧ J v s)
      (forEach names body) (fun _ s => ∃ v, (∀ n ∈ managedItems, done n (v n)) ∧ J v s) E C := by
  refine (Runs.forEach_runs (I := fun rest s => ∃ v : Shelves β, ((∀ n ∈ rest, n ∈ names) ∧
    rest.Nodup ∧ ∀ n ∈ managedItems, if n ∈ rest then todo n (v n) else done n (v n)) ∧ J v s)
    (fun n rest => ?_) names).conseq ?_ ?_
  · refine Runs.exists_pre fun v => Runs.assuming fun ⟨hsub, hrest, hv⟩ => ?_
    have hn := hsub n List.mem_cons_self
    have htodo : todo n (v n) := by simpa using hv n (hmem n hn)
    have hall : ∀ m ∈ managedItems, todo m (v m) ∨ done m (v m) := by
      intro m hm
      have := hv m hm
      split at this
      · exact Or.inl this
      · exact Or.inr this
    refine (step v n hn htodo hall).weaken ?_
    rintro _ s ⟨i, hi, hJ⟩
    have hnot : n ∉ rest := (List.nodup_cons.mp hrest).1
    refine ⟨_, ⟨fun m hm => hsub m (List.mem_cons_of_mem _ hm), hrest.of_cons, ?_⟩, hJ⟩
    refine forall_update (p := fun m i => if m ∈ rest then todo m i else done m i) ?_ ?_
    · intro m hm hmn
      simpa [hmn] using hv m hm
    · rwa [if_neg hnot]
  · rintro s ⟨v, hv, hJ⟩
    refine ⟨v, ⟨fun _ h => h, hnodup, fun n hn => ?_⟩, hJ⟩
    split
    · exact hv n hn
    · next hno => exact skip n hn hno _ (hv n hn)
  · rintro _ s ⟨v, ⟨-, -, hv⟩, hJ⟩
    exact ⟨v, fun n hn => by simpa using hv n hn, hJ⟩

end Sesame.Ops
