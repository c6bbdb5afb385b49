import SesameServer.Lib.History
import SesameServer.Lib.Table

/- Interleaved transactions at READ COMMITTED.

   A transaction runs its statements one after another. Each statement sees the rows
   that are committed when it runs, with the transaction's own changes on top; it runs
   when no other transaction holds a lock in conflict with those it takes, and locks are
   held to the end. A commit applies the changes to what is committed by then. The time
   a transaction began is fixed when it begins.

   1. `Program`, `Reads` — bodies of statements, and their traces: what each statement
      saw, locked and changed. `Reads.bind`, `Reads.stmt` read a trace off a body's text.
   2. `Engine`, `System`, `step` — the moves of a database that runs many of them.
   3. `Run.sound` — every active transaction has its body's trace, and no two of them
      hold conflicting locks.
   4. `Run.since` — from a statement to the end of its transaction only the commits
      whose locks do not conflict with that statement's have moved the tables.
   5. `Steps.ran`, `Steps.saw` — a statement still to come will see what is committed by now.
   6. `Steps.split` — the tables around a commit.

   A statement that waits is taken afresh when its locks are free. The database would go on
   with the rows it had found and look only at those that were locked again, so the two
   agree for statements that lock one row, and for those that never wait. -/
namespace ReadCommitted

variable {τ σ χ ρ ε α β : Type}

/-! Bodies of transactions. -/

/-- The body of a transaction: what a statement locks, changes and does next depends on
    the tables it sees. -/
inductive Program (σ χ ρ ε α : Type)
  | done (reply : α)
  | fail (error : ε)
  | statement (locks : σ → List ρ) (changes : σ → List χ) (next : σ → Program σ χ ρ ε α)

namespace Program

def bind : Program σ χ ρ ε α → (α → Program σ χ ρ ε β) → Program σ χ ρ ε β
  | .done a, f => f a
  | .fail e, _ => .fail e
  | .statement locks changes next, f => .statement locks changes fun s => (next s).bind f

instance : Monad (Program σ χ ρ ε) where
  pure := .done
  bind := bind

/-- One statement: its locks, its row changes and what it returns. -/
def stmt (locks : σ → List ρ) (changes : σ → List χ) (reply : σ → Except ε α) :
    Program σ χ ρ ε α :=
  .statement locks changes fun s => match reply s with
    | .ok a => .done a
    | .error e => .fail e

/-- The reply of a body that is at its end. -/
def reply? : Program σ χ ρ ε α → Option α
  | .done a => some a
  | _ => none

variable {p : Program σ χ ρ ε α} {G : List ρ → χ → Prop} {P : χ → Prop}

theorem reply?_eq {a : α} (h : p.reply? = some a) : p = .done a := by
  cases p <;> cases h
  rfl

/-- Every row change of every statement is guarded by the locks of that statement. -/
def Guarded (G : List ρ → χ → Prop) : Program σ χ ρ ε α → Prop
  | .done _ => True
  | .fail _ => True
  | .statement locks changes next => ∀ s, (∀ c ∈ changes s, G (locks s) c) ∧ (next s).Guarded G

/-- Every row change of every statement meets `P`. -/
abbrev Emits (P : χ → Prop) (p : Program σ χ ρ ε α) : Prop := p.Guarded fun _ => P

theorem guarded_stmt {locks : σ → List ρ} {changes : σ → List χ} {reply : σ → Except ε α}
    (h : ∀ s, ∀ c ∈ changes s, G (locks s) c) : (stmt locks changes reply).Guarded G := by
  intro s
  refine ⟨h s, ?_⟩
  dsimp only
  cases reply s <;> exact trivial

theorem Guarded.bind {f : α → Program σ χ ρ ε β}
    (hp : p.Guarded G) (hf : ∀ a, (f a).Guarded G) : (p >>= f).Guarded G := by
  induction p with
  | done a => exact hf a
  | fail e => exact trivial
  | statement locks changes next ih => exact fun s => ⟨(hp s).1, ih s (hp s).2⟩

theorem Emits.mono {Q : χ → Prop} (h : p.Emits P) (hpq : ∀ c, P c → Q c) : p.Emits Q := by
  induction p with
  | done a => exact trivial
  | fail e => exact trivial
  | statement locks changes next ih =>
    exact fun s => ⟨fun c hc => hpq c ((h s).1 c hc), ih s (h s).2⟩

end Program

/-- One statement that ran: the committed tables then, the locks it took and the row
    changes it made. -/
structure Entry (σ χ ρ : Type) where
  seen : σ
  locks : List ρ
  changes : List χ

def changesOf (trace : List (Entry σ χ ρ)) : List χ := trace.flatMap (·.changes)

def locksOf (trace : List (Entry σ χ ρ)) : List ρ := trace.flatMap (·.locks)

@[simp] theorem changesOf_nil : changesOf ([] : List (Entry σ χ ρ)) = [] := rfl

@[simp] theorem changesOf_cons (e : Entry σ χ ρ) (trace : List (Entry σ χ ρ)) :
    changesOf (e :: trace) = e.changes ++ changesOf trace := by simp [changesOf]

@[simp] theorem changesOf_append (s t : List (Entry σ χ ρ)) :
    changesOf (s ++ t) = changesOf s ++ changesOf t := by simp [changesOf]

theorem mem_locksOf {trace : List (Entry σ χ ρ)} {e : Entry σ χ ρ} {l : ρ} (he : e ∈ trace)
    (hl : l ∈ e.locks) : l ∈ locksOf trace := List.mem_flatMap.mpr ⟨e, he, hl⟩

variable (apply : χ → σ → σ)

def applyAll (changes : List χ) (tables : σ) : σ := changes.foldl (fun t c => apply c t) tables

theorem applyAll_append (first rest : List χ) (tables : σ) :
    applyAll apply (first ++ rest) tables = applyAll apply rest (applyAll apply first tables) :=
  List.foldl_append

theorem applyAll_keeps {P : σ → Prop} {changes : List χ} {tables : σ}
    (h : ∀ c ∈ changes, ∀ t, P t → P (apply c t)) (first : P tables) :
    P (applyAll apply changes tables) := by
  induction changes generalizing tables with
  | nil => exact first
  | cons c changes ih =>
    exact ih (fun c' hc' => h c' (List.mem_cons_of_mem _ hc')) (h c List.mem_cons_self _ first)

/-- What a body ran, statement by statement, and what is left of it. -/
inductive Reads : Program σ χ ρ ε α → List χ → List (Entry σ χ ρ) → Program σ χ ρ ε α → Prop
  | refl (p : Program σ χ ρ ε α) (pending : List χ) : Reads p pending [] p
  | step {locks : σ → List ρ} {changes : σ → List χ} {next : σ → Program σ χ ρ ε α}
      {pending : List χ} {trace : List (Entry σ χ ρ)} {last : Program σ χ ρ ε α} (seen : σ)
      (rest : Reads (next (applyAll apply pending seen))
        (pending ++ changes (applyAll apply pending seen)) trace last) :
      Reads (.statement locks changes next) pending
        (⟨seen, locks (applyAll apply pending seen), changes (applyAll apply pending seen)⟩ ::
          trace) last

namespace Reads

variable {apply} {p last : Program σ χ ρ ε α} {pending : List χ} {trace : List (Entry σ χ ρ)}

theorem snoc {locks : σ → List ρ} {changes : σ → List χ} {next : σ → Program σ χ ρ ε α}
    (h : Reads apply p pending trace (.statement locks changes next)) (seen : σ) {view : σ}
    (hview : view = applyAll apply (pending ++ changesOf trace) seen) :
    Reads apply p pending (trace ++ [⟨seen, locks view, changes view⟩]) (next view) := by
  generalize hq : Program.statement locks changes next = q at h
  induction h with
  | refl p pending =>
    subst hq
    simp only [changesOf_nil, List.append_nil] at hview
    subst hview
    exact .step seen (.refl _ _)
  | step seen' rest ih =>
    refine .step seen' (ih ?_ hq)
    simpa using hview

theorem guarded {G : List ρ → χ → Prop} (h : Reads apply p pending trace last)
    (hp : p.Guarded G) : ∀ e ∈ trace, ∀ c ∈ e.changes, G e.locks c := by
  induction h with
  | refl => simp
  | step seen rest ih =>
    intro e he c hc
    rcases List.mem_cons.mp he with rfl | he
    · exact (hp _).1 c hc
    · exact ih (hp _).2 e he c hc

theorem emits {P : χ → Prop} (h : Reads apply p pending trace last) (hp : p.Emits P) :
    ∀ c ∈ changesOf trace, P c := by
  intro c hc
  obtain ⟨e, he, hc⟩ := List.mem_flatMap.mp hc
  exact h.guarded hp e he c hc

theorem bind_cases {p : Program σ χ ρ ε α} {f : α → Program σ χ ρ ε β} {last : Program σ χ ρ ε β}
    (h : Reads apply (p >>= f) pending trace last) : (∃ mid, Reads apply p pending trace mid) ∨
    ∃ a first rest, trace = first ++ rest ∧ Reads apply p pending first (.done a) ∧
      Reads apply (f a) (pending ++ changesOf first) rest last := by
  induction p generalizing pending trace with
  | done a =>
    change Reads apply (f a) pending trace last at h
    exact .inr ⟨a, [], trace, rfl, .refl _ _, by simpa using h⟩
  | fail e =>
    cases h
    exact .inl ⟨_, .refl _ _⟩
  | statement locks changes next ih =>
    cases h with
    | refl => exact .inl ⟨_, .refl _ _⟩
    | step seen rest =>
      rcases ih _ rest with ⟨mid, hmid⟩ | ⟨a, first, later, rfl, hfirst, hlater⟩
      · exact .inl ⟨mid, .step seen hmid⟩
      · refine .inr ⟨a, _ :: first, later, rfl, .step seen hfirst, ?_⟩
        simpa using hlater

theorem bind {p : Program σ χ ρ ε α} {f : α → Program σ χ ρ ε β} {b : β}
    (h : Reads apply (p >>= f) pending trace (.done b)) :
    ∃ a first rest, trace = first ++ rest ∧ Reads apply p pending first (.done a) ∧
      Reads apply (f a) (pending ++ changesOf first) rest (.done b) := by
  induction p generalizing pending trace with
  | done a =>
    change Reads apply (f a) pending trace (.done b) at h
    exact ⟨a, [], trace, rfl, .refl _ _, by simpa using h⟩
  | fail e => cases h
  | statement locks changes next ih =>
    cases h with
    | step seen rest =>
      obtain ⟨a, first, later, rfl, hfirst, hlater⟩ := ih _ rest
      refine ⟨a, _ :: first, later, rfl, .step seen hfirst, ?_⟩
      simpa using hlater

theorem stmt {locks : σ → List ρ} {changes : σ → List χ} {reply : σ → Except ε α} {a : α}
    (h : Reads apply (Program.stmt locks changes reply) pending trace (.done a)) :
    ∃ seen view, view = applyAll apply pending seen ∧
      trace = [⟨seen, locks view, changes view⟩] ∧ reply view = .ok a := by
  cases h with
  | step seen rest =>
    refine ⟨seen, _, rfl, ?_⟩
    revert rest
    dsimp only
    cases reply (applyAll apply pending seen) with
    | error e => intro rest; cases rest
    | ok a' =>
      intro rest
      cases rest
      exact ⟨rfl, rfl⟩

theorem done {a b : α} (h : Reads apply (pure a : Program σ χ ρ ε α) pending trace (.done b)) :
    trace = [] ∧ a = b := by
  cases h
  exact ⟨rfl, rfl⟩

end Reads

/-- Whatever the body reads, `q` is one of its parts. -/
inductive Contains (q : Program σ χ ρ ε β) : {α : Type} → Program σ χ ρ ε α → Prop
  | head {α : Type} {f : β → Program σ χ ρ ε α} : Contains q (q >>= f)
  | tail {α γ : Type} {p : Program σ χ ρ ε γ} {f : γ → Program σ χ ρ ε α}
      (h : ∀ a, Contains q (f a)) : Contains q (p >>= f)

theorem Reads.part {q : Program σ χ ρ ε β} {p : Program σ χ ρ ε α} (part : Contains q p)
    {pending : List χ} {trace : List (Entry σ χ ρ)} {a : α}
    (h : Reads apply p pending trace (.done a)) : ∃ b first mid rest,
      trace = first ++ (mid ++ rest) ∧ Reads apply q (pending ++ changesOf first) mid (.done b) := by
  induction part generalizing pending trace with
  | head =>
    obtain ⟨b, mid, rest, rfl, hmid, -⟩ := h.bind
    exact ⟨b, [], mid, rest, rfl, by simpa using hmid⟩
  | tail _ ih =>
    obtain ⟨c, t, later, rfl, -, hlater⟩ := h.bind
    obtain ⟨b, first, mid, rest, rfl, hmid⟩ := ih c hlater
    exact ⟨b, t ++ first, mid, rest, by simp, by simpa using hmid⟩

/-! The database. -/

/-- What a database is told of its schema and its callers: the body of each task given
    the time it begins at, how a row change acts, and which locks exclude one another. -/
structure Engine (τ σ χ ρ ε α : Type) where
  program : τ → Int → Program σ χ ρ ε α
  apply : χ → σ → σ
  conflict : ρ → ρ → Bool
  symm : ∀ l m, conflict l m = conflict m l

/-- A transaction: its task, the time it began, what is left of its body and what it has
    run so far. -/
structure Txn (τ σ χ ρ ε α : Type) where
  task : τ
  start : Int
  program : Program σ χ ρ ε α
  trace : List (Entry σ χ ρ)

structure System (τ σ χ ρ ε α : Type) where
  tables : σ
  clock : Int
  count : Nat
  active : Table Nat (Txn τ σ χ ρ ε α)

inductive Event (τ σ χ ρ ε α : Type)
  | committed (id : Nat) (txn : Txn τ σ χ ρ ε α)

inductive Move (τ : Type)
  | wait (ticks : Nat)
  | begin (task : τ)
  | advance (id : Nat)
  | abort (id : Nat)

namespace Engine

variable (E : Engine τ σ χ ρ ε α)

/-- No other transaction holds a lock in conflict with these. -/
def free (sys : System τ σ χ ρ ε α) (id : Nat) (locks : List ρ) : Bool :=
  sys.active.entries.all fun e =>
    e.1 == id || (locksOf e.2.trace).all fun m => locks.all fun l => !E.conflict l m

/-- A move of the database. A finished body commits, a failed one is rolled back, and a
    statement waits until its locks are free. -/
def step (sys : System τ σ χ ρ ε α) :
    Move τ → Option (List (Event τ σ χ ρ ε α) × System τ σ χ ρ ε α)
  | .wait ticks => some ([], { sys with clock := sys.clock + ticks })
  | .begin task =>
    let txn := ⟨task, sys.clock, E.program task sys.clock, []⟩
    some ([], { sys with count := sys.count + 1, active := sys.active.insert sys.count txn })
  | .abort id =>
    match sys.active.lookup id with
    | none => none
    | some _ => some ([], { sys with active := sys.active.erase id })
  | .advance id =>
    match sys.active.lookup id with
    | none => none
    | some txn =>
      let view := applyAll E.apply (changesOf txn.trace) sys.tables
      match txn.program with
      | .done _ =>
        some ([.committed id txn], { sys with tables := view, active := sys.active.erase id })
      | .fail _ => some ([], { sys with active := sys.active.erase id })
      | .statement locks changes next =>
        if E.free sys id (locks view) then
          let entry := ⟨sys.tables, locks view, changes view⟩
          let txn' := { txn with program := next view, trace := txn.trace ++ [entry] }
          some ([], { sys with active := sys.active.insert id txn' })
        else none

/-- The moves one after another, each of them possible. -/
def play (sys : System τ σ χ ρ ε α) :
    List (Move τ) → Option (List (Event τ σ χ ρ ε α) × System τ σ χ ρ ε α)
  | [] => some ([], sys)
  | move :: moves =>
    match E.step sys move with
    | none => none
    | some (shown, sys') =>
      match play sys' moves with
      | none => none
      | some (events, last) => some (shown ++ events, last)

def Next (sys : System τ σ χ ρ ε α) (shown : List (Event τ σ χ ρ ε α))
    (sys' : System τ σ χ ρ ε α) : Prop := ∃ move, E.step sys move = some (shown, sys')

/-- The database at rest: nobody has begun. -/
def start (tables : σ) (clock : Int) : System τ σ χ ρ ε α := ⟨tables, clock, 0, ∅⟩

abbrev Steps (sys : System τ σ χ ρ ε α) (events : List (Event τ σ χ ρ ε α))
    (sys' : System τ σ χ ρ ε α) : Prop :=
  History.Path E.Next (fun _ => True) sys events sys'

/-- A run from the database at rest. -/
abbrev Run (tables : σ) (clock : Int) (events : List (Event τ σ χ ρ ε α))
    (sys : System τ σ χ ρ ε α) : Prop := E.Steps (start tables clock) events sys

variable {E} {sys sys' : System τ σ χ ρ ε α} {events shown : List (Event τ σ χ ρ ε α)}

theorem play_steps {moves : List (Move τ)} (h : E.play sys moves = some (events, sys')) :
    E.Steps sys events sys' := by
  induction moves generalizing sys events with
  | nil =>
    cases h
    exact .refl trivial
  | cons move moves ih =>
    simp only [play] at h
    split at h
    · cases h
    · next shown mid hstep =>
      split at h
      · cases h
      · next rest last hrest =>
        cases h
        have first : E.Steps sys ([] ++ shown) mid := .step (.refl trivial) ⟨move, hstep⟩ trivial
        exact first.trans (ih hrest)

variable {id : Nat} {txn : Txn τ σ χ ρ ε α} {R : σ → σ → Prop}

theorem next_commit {reply : α} (active : sys.active.lookup id = some txn)
    (body : txn.program = .done reply) : E.Next sys [.committed id txn] { sys with
      tables := applyAll E.apply (changesOf txn.trace) sys.tables
      active := sys.active.erase id } :=
  ⟨.advance id, by simp [step, active, body]⟩

theorem free_iff {locks : List ρ} : E.free sys id locks = true ↔
    ∀ other txn, sys.active.lookup other = some txn → other ≠ id →
      ∀ l ∈ locks, ∀ m ∈ locksOf txn.trace, E.conflict l m = false := by
  unfold free
  rw [List.all_eq_true]
  constructor
  · intro h other txn hother hne l hl m hm
    have := h ⟨other, txn⟩ (AList.mem_lookup_iff.mp hother)
    simp only [Bool.or_eq_true, beq_iff_eq, hne, false_or, List.all_eq_true] at this
    simpa using this m hm l hl
  · rintro h ⟨other, txn⟩ he
    simp only [Bool.or_eq_true, beq_iff_eq, List.all_eq_true]
    by_cases hne : other = id
    · exact .inl hne
    · right
      intro m hm l hl
      simpa using h other txn (AList.mem_lookup_iff.mpr he) hne l hl m hm

/-- A transaction that can commit: its body ran to the end. -/
def Finished (E : Engine τ σ χ ρ ε α) (txn : Txn τ σ χ ρ ε α) : Prop :=
  ∃ reply, Reads E.apply (E.program txn.task txn.start) [] txn.trace (.done reply)

/-- What a step does: it leaves the tables alone and starts, drops or runs one
    transaction, or it commits one. -/
inductive Does (E : Engine τ σ χ ρ ε α) (sys : System τ σ χ ρ ε α) :
    List (Event τ σ χ ρ ε α) → System τ σ χ ρ ε α → Prop
  | wait (clock : Int) : Does E sys [] { sys with clock := clock }
  | begin (task : τ) : Does E sys [] { sys with
      count := sys.count + 1
      active := sys.active.insert sys.count ⟨task, sys.clock, E.program task sys.clock, []⟩ }
  | drop (id : Nat) : Does E sys [] { sys with active := sys.active.erase id }
  | run {id : Nat} {txn : Txn τ σ χ ρ ε α} {locks : σ → List ρ} {changes : σ → List χ}
      {next : σ → Program σ χ ρ ε α} (view : σ) (active : sys.active.lookup id = some txn)
      (body : txn.program = .statement locks changes next)
      (sees : view = applyAll E.apply (changesOf txn.trace) sys.tables)
      (free : E.free sys id (locks view) = true) :
      Does E sys [] { sys with active := sys.active.insert id { txn with
        program := next view, trace := txn.trace ++ [⟨sys.tables, locks view, changes view⟩] } }
  | commit {id : Nat} {txn : Txn τ σ χ ρ ε α} {reply : α}
      (active : sys.active.lookup id = some txn) (body : txn.program = .done reply) :
      Does E sys [.committed id txn] { sys with
        tables := applyAll E.apply (changesOf txn.trace) sys.tables
        active := sys.active.erase id }

theorem Next.does (h : E.Next sys shown sys') : E.Does sys shown sys' := by
  obtain ⟨move, h⟩ := h
  cases move with
  | wait ticks => cases h; exact .wait _
  | begin task => cases h; exact .begin task
  | abort id =>
    simp only [step] at h
    split at h
    · cases h
    · cases h; exact .drop id
  | advance id =>
    simp only [step] at h
    split at h
    · cases h
    · next txn hactive =>
      split at h
      · next reply hbody => cases h; exact .commit hactive hbody
      · cases h; exact .drop id
      · next locks changes next hbody =>
        split at h
        · next hfree => cases h; exact .run _ hactive hbody rfl hfree
        · cases h

/-- What holds of the active transactions all along. -/
structure Sound (E : Engine τ σ χ ρ ε α) (sys : System τ σ χ ρ ε α) : Prop where
  counted : ∀ id txn, sys.active.lookup id = some txn → id < sys.count
  reads : ∀ id txn, sys.active.lookup id = some txn →
    Reads E.apply (E.program txn.task txn.start) [] txn.trace txn.program
  apart : ∀ id txn id' txn', sys.active.lookup id = some txn →
    sys.active.lookup id' = some txn' → id ≠ id' →
      ∀ l ∈ locksOf txn.trace, ∀ m ∈ locksOf txn'.trace, E.conflict l m = false

theorem Sound.start (tables : σ) (clock : Int) : E.Sound (start tables clock) where
  counted _ _ h := by cases h
  reads _ _ h := by cases h
  apart _ _ _ _ h := by cases h

theorem Sound.finished (sound : E.Sound sys) {reply : α} (active : sys.active.lookup id = some txn)
    (body : txn.program = .done reply) : E.Finished txn := ⟨reply, body ▸ sound.reads id txn active⟩

theorem Sound.erase (sound : E.Sound sys) (id : Nat) (tables : σ) :
    E.Sound { sys with tables := tables, active := sys.active.erase id } := by
  have still : ∀ {k : Nat} {txn : Txn τ σ χ ρ ε α}, (sys.active.erase id).lookup k = some txn →
      sys.active.lookup k = some txn := fun h => (Table.lookup_erase_some.mp h).2
  exact ⟨fun k txn h => sound.counted k txn (still h), fun k txn h => sound.reads k txn (still h),
    fun k txn k' txn' h h' => sound.apart k txn k' txn' (still h) (still h')⟩

/-- A transaction in a new state that is sound for itself and apart from the others. -/
theorem Sound.insert (sound : E.Sound sys) {count : Nat}
    (counted : id < count) (more : sys.count ≤ count)
    (reads : Reads E.apply (E.program txn.task txn.start) [] txn.trace txn.program)
    (apart : ∀ other txn', sys.active.lookup other = some txn' → other ≠ id →
      ∀ l ∈ locksOf txn.trace, ∀ m ∈ locksOf txn'.trace, E.conflict l m = false) :
    E.Sound { sys with count := count, active := sys.active.insert id txn } := by
  refine ⟨fun k x h => ?_, fun k x h => ?_, fun k x k' x' h h' hne l hl m hm => ?_⟩
  · rw [Table.lookup_insert_eq] at h
    split at h
    · next e => rw [e]; exact counted
    · exact Nat.lt_of_lt_of_le (sound.counted k x h) more
  · rw [Table.lookup_insert_eq] at h
    split at h
    · cases h; exact reads
    · exact sound.reads k x h
  · rw [Table.lookup_insert_eq] at h h'
    split at h <;> split at h'
    · next e e' => exact absurd (e.trans e'.symm) hne
    · next e e' => cases h; exact apart k' x' h' e' l hl m hm
    · next e e' => cases h'; rw [E.symm]; exact apart k x h e m hm l hl
    · exact sound.apart k x k' x' h h' hne l hl m hm

theorem Sound.next (sound : E.Sound sys) (h : E.Does sys shown sys') : E.Sound sys' := by
  cases h with
  | wait clock => exact ⟨sound.counted, sound.reads, sound.apart⟩
  | begin task =>
    refine sound.insert (Nat.lt_succ_self _) (Nat.le_succ _) (.refl _ _) ?_
    intro other txn' _ _ l hl
    cases hl
  | drop id => exact sound.erase id sys.tables
  | commit => exact sound.erase _ _
  | @run id txn locks changes next view active body sees free =>
    refine sound.insert (sound.counted id txn active) (Nat.le_refl _) ?_ ?_
    · have reads := sound.reads id txn active
      rw [body] at reads
      exact reads.snoc sys.tables (by simpa using sees)
    · intro other txn' hother hne l hl m hm
      unfold locksOf at hl
      rw [List.flatMap_append, List.mem_append] at hl
      -- the locks held before are apart already, the new ones were free
      rcases hl with hl | hl
      · exact sound.apart id txn other txn' active hother hne.symm l hl m hm
      · exact free_iff.mp free other txn' hother hne l (by simpa using hl) m hm

theorem Run.sound {tables : σ} {clock : Int} (run : E.Run tables clock events sys) : E.Sound sys :=
  run.always (Q := fun _ s => E.Sound s) (Sound.start tables clock)
    fun _ _ _ _ _ sound next _ => sound.next next.does

/-- A transaction that is active after a step was so before, has begun just now, or has run one
    more statement. -/
theorem Does.active (h : E.Does sys shown sys')
    (active : sys'.active.lookup id = some txn) : sys.active.lookup id = some txn ∨ txn.trace = [] ∨
      ∃ old locks changes, sys.active.lookup id = some old ∧
        txn.trace = old.trace ++ [⟨sys.tables, locks, changes⟩] ∧ sys'.tables = sys.tables := by
  cases h with
  | wait => exact .inl active
  | begin task =>
    rcases Table.lookup_insert_some.mp active with ⟨-, rfl⟩ | ⟨-, active⟩
    · exact .inr (.inl rfl)
    · exact .inl active
  | drop | commit => exact .inl (Table.lookup_erase_some.mp active).2
  | run view active' =>
    rcases Table.lookup_insert_some.mp active with ⟨rfl, rfl⟩ | ⟨-, active⟩
    · exact .inr (.inr ⟨_, _, _, active', rfl, rfl⟩)
    · exact .inl active

/-- **Since a statement ran.** A relation that every commit keeps, unless its transaction
    holds a lock in conflict with those taken up to the statement, relates the tables that
    the statement saw to the tables now, as long as its transaction is active. -/
theorem Run.since {tables : σ} {clock : Int} (run : E.Run tables clock events sys)
    (refl : ∀ s, R s s) (trans : ∀ {s t u}, R s t → R t u → R s u)
    {before after : List (Entry σ χ ρ)} {e : Entry σ χ ρ} (active : sys.active.lookup id = some txn)
    (ran : txn.trace = before ++ e :: after)
    (commit : ∀ {events s k other}, E.Run tables clock events s → s.active.lookup k = some other →
      E.Finished other →
      (∀ l ∈ locksOf other.trace, ∀ m ∈ locksOf (before ++ [e]), E.conflict l m = false) →
      R s.tables (applyAll E.apply (changesOf other.trace) s.tables)) : R e.seen sys.tables := by
  suffices key : ∀ id txn after, sys.active.lookup id = some txn →
      txn.trace = before ++ e :: after → R e.seen sys.tables from key id txn after active ran
  refine (run.always (Q := fun _ s => E.Sound s ∧ ∀ id txn after, s.active.lookup id = some txn →
    txn.trace = before ++ e :: after → R e.seen s.tables)
    ⟨Sound.start tables clock, fun _ _ _ h => by cases h⟩ ?_).2
  rintro _ s _ s' run ⟨sound, ih⟩ next _
  have hdoes := next.does
  refine ⟨sound.next hdoes, ?_⟩
  intro k x after hk he
  rcases hdoes.active hk with hold | hnew | ⟨old, locks, changes, hold, htrace, htables⟩
  · have seen := ih k x after hold he
    cases hdoes with
    | wait | begin | drop | run => exact seen
    | @commit id' txn' reply active' body =>
      have hne := (Table.lookup_erase_some.mp hk).1
      refine trans seen (commit run active' (sound.finished active' body) fun l hl m hm => ?_)
      refine sound.apart id' txn' k x active' hold (Ne.symm hne) l hl m ?_
      rw [he, List.append_cons, locksOf, List.flatMap_append]
      exact List.mem_append_left _ hm
  · rw [hnew] at he
    simp at he
  · rw [htables]
    -- the statement itself, or one that ran before it
    rcases List.eq_nil_or_concat after with rfl | ⟨after', last, rfl⟩
    · cases (List.append_inj' (htrace.symm.trans he) rfl).2
      exact refl _
    · rw [List.concat_eq_append, ← List.cons_append, ← List.append_assoc, htrace] at he
      exact ih k old after' hold (List.append_inj' he rfl).1

/-- A relation that every commit keeps holds between the tables at both ends of a run. -/
theorem Steps.tables (steps : E.Steps sys events sys') (sound : E.Sound sys)
    (refl : ∀ s, R s s) (trans : ∀ {s t u}, R s t → R t u → R s u)
    (commit : ∀ other, E.Finished other → ∀ s, R s (applyAll E.apply (changesOf other.trace) s)) :
    R sys.tables sys'.tables := by
  refine (steps.always (Q := fun _ s => E.Sound s ∧ R sys.tables s.tables)
    ⟨sound, refl _⟩ ?_).2
  rintro _ s _ s' _ ⟨sound, ih⟩ next _
  have hdoes := next.does
  refine ⟨sound.next hdoes, ?_⟩
  cases hdoes with
  | wait | begin | drop | run => exact ih
  | commit active body => exact trans ih (commit _ (sound.finished active body) _)

/-- A statement that an active transaction has run was run before the steps, or in between. -/
theorem Steps.ran (steps : E.Steps sys events sys') : ∀ id txn, sys'.active.lookup id = some txn →
    ∀ e ∈ txn.trace, (∃ old, sys.active.lookup id = some old ∧ e ∈ old.trace) ∨
      ∃ es s, E.Steps sys es s ∧ e.seen = s.tables := by
  refine steps.always (Q := fun _ s => ∀ id txn, s.active.lookup id = some txn → ∀ e ∈ txn.trace,
    (∃ old, sys.active.lookup id = some old ∧ e ∈ old.trace) ∨
      ∃ es s, E.Steps sys es s ∧ e.seen = s.tables) (fun id txn h e he => .inl ⟨txn, h, he⟩) ?_
  intro es s _ s' path ih next _ k x hk e he
  rcases next.does.active hk with hold | hnew | ⟨old, locks, changes, hold, htrace, -⟩
  · exact ih k x hold e he
  · rw [hnew] at he
    cases he
  · rw [htrace] at he
    rcases List.mem_append.mp he with he | he
    · exact ih k old hold e he
    · rw [List.mem_singleton.mp he]
      exact .inr ⟨es, s, path, rfl⟩

/-- A statement that nobody has run yet will see tables that are related to those now. -/
theorem Steps.saw (steps : E.Steps sys events sys') (sound : E.Sound sys)
    (refl : ∀ s, R s s) (trans : ∀ {s t u}, R s t → R t u → R s u)
    (commit : ∀ other, E.Finished other → ∀ s, R s (applyAll E.apply (changesOf other.trace) s))
    {Q : Entry σ χ ρ → Prop}
    (none : ∀ id txn, sys.active.lookup id = some txn → ∀ e ∈ txn.trace, ¬ Q e) :
    ∀ id txn, sys'.active.lookup id = some txn → ∀ e ∈ txn.trace, Q e → R sys.tables e.seen := by
  intro id txn active e he hq
  rcases Steps.ran steps id txn active e he with ⟨old, hold, he⟩ | ⟨es, s, path, hseen⟩
  · exact absurd hq (none id old hold e he)
  · rw [hseen]
    exact Steps.tables path sound refl trans commit

/-- A run with a commit in it: the steps up to the commit of a transaction that is then active with
    its body at an end, and the steps from the tables it leaves. -/
def Around (E : Engine τ σ χ ρ ε α) (sys sys' : System τ σ χ ρ ε α)
    (before later : List (Event τ σ χ ρ ε α)) (id : Nat) (txn : Txn τ σ χ ρ ε α) : Prop :=
  ∃ mid, E.Steps sys before mid ∧ mid.active.lookup id = some txn ∧
    (∃ reply, txn.program = .done reply) ∧
    E.Steps { mid with
      tables := applyAll E.apply (changesOf txn.trace) mid.tables
      active := mid.active.erase id } later sys'

theorem Steps.split (steps : E.Steps sys events sys') {before later : List (Event τ σ χ ρ ε α)}
    (h : events = before ++ .committed id txn :: later) :
    E.Around sys sys' before later id txn := by
  revert before later id txn
  refine steps.always (Q := fun es s => ∀ {before later id txn},
    es = before ++ .committed id txn :: later → E.Around sys s before later id txn)
    (fun h => by simp at h) ?_
  intro es s shown s' path ih next _ before later id txn h
  -- the commit was shown before this step, or it is this step
  have old : ∀ {later'}, es = before ++ .committed id txn :: later' → later = later' ++ shown →
      E.Around sys s' before later id txn := by
    rintro later' hes rfl
    obtain ⟨mid, first, active, body, last⟩ := ih hes
    exact ⟨mid, first, active, body, last.step next trivial⟩
  cases next.does with
  | wait | begin | drop | run => exact old (by simpa using h) (by simp)
  | commit active body =>
    rcases List.eq_nil_or_concat later with rfl | ⟨later', last, rfl⟩
    · obtain ⟨rfl, hlast⟩ := List.append_inj' h rfl
      cases List.singleton_inj.mp hlast
      exact ⟨s, path, active, ⟨_, body⟩, .refl trivial⟩
    · rw [List.concat_eq_append, ← List.cons_append, ← List.append_assoc] at h
      obtain ⟨hes, hlast⟩ := List.append_inj' h rfl
      exact old hes (by rw [List.concat_eq_append, hlast])

/-- A transaction that committed was active, with its body at an end, just before. -/
theorem Steps.committed (steps : E.Steps sys events sys')
    (h : .committed id txn ∈ events) : ∃ before mid, E.Steps sys before mid ∧
      mid.active.lookup id = some txn ∧ ∃ reply, txn.program = .done reply := by
  obtain ⟨before, later, h⟩ := List.append_of_mem h
  obtain ⟨mid, first, active, body, -⟩ := Steps.split steps h
  exact ⟨before, mid, first, active, body⟩

end Engine

end ReadCommitted
