-- SUMMARY: Threads that share a memory: programs that access it one step at a time, their interleavings, and a rely-guarantee rule.
import TriHaRd.Base.Run
import Mathlib.Logic.Function.Basic
import Mathlib.Logic.Relation

/-!
# Threads

A program is a tree of accesses to a shared memory. Each access stands at a
`place`, performs one operation, or none if it only reads, and goes on with what it
has found in the memory and with what the outside world shows at that moment.

A machine has a program for each thread, and at each step one thread makes its next
access. A thread that comes to the end of its program rests, and `body` says what
it does next.

The proof rule is that of rely and guarantee. `Safe` follows one program: what the
other threads do between two accesses stays within `R`, and each access itself
keeps to `G`. What a thread may rely on depends on the place where it stands.
-/

namespace SharedMemory

open Lts

-- ---------------------------------------------------------------------------
-- Programs
-- ---------------------------------------------------------------------------

/-- A program over the memory `σ` with operations `ο`, which sees `ω` of the outside world. -/
inductive Prog (ο ω σ π α : Type) where
  | ret (a : α)
  | act (place : π) (op : Option ο) (next : ω → σ → Prog ο ω σ π α)

namespace Prog

variable {ο ω σ π ε α β : Type}

def bind (p : Prog ο ω σ π α) (f : α → Prog ο ω σ π β) : Prog ο ω σ π β :=
  match p with
  | .ret a => f a
  | .act place op next => .act place op fun w s => (next w s).bind f

instance : Monad (Prog ο ω σ π) where
  pure := .ret
  bind := bind

/-- Read something. -/
def load (place : π) (f : ω → σ → α) : Prog ο ω σ π α := .act place none fun w s => .ret (f w s)

/-- Perform an operation. -/
def store (place : π) (op : ο) : Prog ο ω σ π Unit := .act place (some op) fun _ _ => .ret ()

/-- The program, or nothing. -/
def when (c : Prop) [Decidable c] (p : Prog ο ω σ π Unit) : Prog ο ω σ π Unit :=
  if c then p else .ret ()

/-- Where the program stands. -/
def place? : Prog ο ω σ π α → Option π
  | .ret _ => none
  | .act place _ _ => some place

/-- Has the program ended with `a`? -/
def restsAt [DecidableEq α] (a : α) : Prog ο ω σ π α → Bool
  | .ret a' => a' == a
  | .act _ _ _ => false

@[simp] theorem pure_eq (a : α) : (pure a : Prog ο ω σ π α) = .ret a := rfl

@[simp] theorem ret_bind (a : α) (f : α → Prog ο ω σ π β) : (.ret a : Prog ο ω σ π α) >>= f = f a := rfl

@[simp] theorem act_bind (place : π) (op : Option ο) (next : ω → σ → Prog ο ω σ π α)
    (f : α → Prog ο ω σ π β) :
    (.act place op next : Prog ο ω σ π α) >>= f = .act place op fun w s => next w s >>= f := rfl

@[simp] theorem load_bind (place : π) (g : ω → σ → α) (f : α → Prog ο ω σ π β) :
    (load place g : Prog ο ω σ π α) >>= f = .act place none fun w s => f (g w s) := rfl

@[simp] theorem store_bind (place : π) (op : ο) (f : Unit → Prog ο ω σ π β) :
    (store place op : Prog ο ω σ π Unit) >>= f = .act place (some op) fun _ _ => f () := rfl

end Prog

/-- What an access does to the memory, and what it shows. -/
def perform {ο σ ε : Type} (exec : ο → σ → σ × List ε) (op : Option ο) (s : σ) : σ × List ε :=
  match op with
  | none => (s, [])
  | some op => exec op s

-- ---------------------------------------------------------------------------
-- Machines
-- ---------------------------------------------------------------------------

/-- `body` is the program of a thread that rests at `κ`, and `ready` tells which threads may move. -/
structure Machine (ι κ ω σ ο π ε : Type) where
  exec : ο → σ → σ × List ε
  body : κ → ω → Prog ο ω σ π κ
  ready : (ι → Prog ο ω σ π κ) → ι → Bool

/-- The memory, and what is left of the program of each thread. -/
structure Pool (ι κ ω σ ο π : Type) where
  mem : σ
  threads : ι → Prog ο ω σ π κ

/-- One access of one thread, which sees the outside world as it is then. -/
structure Slice (ι ω : Type) where
  thread : ι
  outside : ω
deriving DecidableEq, Repr

variable {ι κ ω σ ο π ε : Type}

/-- The program of a thread, also if it rests. -/
def Machine.resume (m : Machine ι κ ω σ ο π ε) (p : Prog ο ω σ π κ) (w : ω) : Prog ο ω σ π κ :=
  match p with
  | .ret k => m.body k w
  | .act place op next => .act place op next

variable [DecidableEq ι]

/-- `none` means that the thread cannot move now. -/
def Machine.step (m : Machine ι κ ω σ ο π ε) (c : Pool ι κ ω σ ο π) (a : Slice ι ω) :
    Option (Pool ι κ ω σ ο π × List ε) :=
  if m.ready c.threads a.thread then
    match m.resume (c.threads a.thread) a.outside with
    | .ret _ => none
    | .act _ op next =>
      some (⟨(perform m.exec op c.mem).1,
        Function.update c.threads a.thread (next a.outside c.mem)⟩, (perform m.exec op c.mem).2)
  else none

/-- The steps of a machine. -/
abbrev Step (ι κ ω σ ο π ε : Type) := Transition (Pool ι κ ω σ ο π) (Slice ι ω) ε

namespace Step

/-- The access that the step makes: where, and which operation. -/
def access? (m : Machine ι κ ω σ ο π ε) (t : Step ι κ ω σ ο π ε) : Option (π × Option ο) :=
  match m.resume (t.pre.threads t.act.thread) t.act.outside with
  | .ret _ => none
  | .act place op _ => some (place, op)

variable {m : Machine ι κ ω σ ο π ε} {t : Step ι κ ω σ ο π ε}

/-- What a step does: one access of one thread. -/
theorem cases (hs : t.IsStep m.step) : ∃ place op next,
    m.resume (t.pre.threads t.act.thread) t.act.outside = .act place op next ∧
      t.access? m = some (place, op) ∧
      m.ready t.pre.threads t.act.thread = true ∧
      t.post.mem = (perform m.exec op t.pre.mem).1 ∧
      t.events = (perform m.exec op t.pre.mem).2 ∧
      t.post.threads =
        Function.update t.pre.threads t.act.thread (next t.act.outside t.pre.mem) := by
  have hstep : m.step t.pre t.act = some (t.post, t.events) := hs
  unfold Machine.step at hstep
  split at hstep
  case isFalse => cases hstep
  case isTrue hready =>
    split at hstep
    case h_1 => cases hstep
    case h_2 place op next hresume =>
      obtain ⟨hpost, hevents⟩ := Prod.mk.inj (Option.some.inj hstep)
      refine ⟨place, op, next, hresume, ?_, hready, ?_, hevents.symm, ?_⟩
      · rw [access?, hresume]
      · rw [← hpost]
      · rw [← hpost]

end Step

-- ---------------------------------------------------------------------------
-- One thread after the other
-- ---------------------------------------------------------------------------

section Turns

/-- The program from its beginning to its end, if all its accesses are `P`. -/
def Prog.runIf {α : Type} (exec : ο → σ → σ × List ε) (P : σ → π → Option ο → Bool) (w : ω) :
    Prog ο ω σ π α → σ → Option (σ × List ε × α)
  | .ret a, s => some (s, [], a)
  | .act place op next, s =>
    if P s place op then
      ((next w s).runIf exec P w (perform exec op s).1).map fun r =>
        (r.1, (perform exec op s).2 ++ r.2.1, r.2.2)
    else none

/-- What the program does if nobody comes between: the memory then, what it shows, and its value. -/
def Prog.runAlone {α : Type} (exec : ο → σ → σ × List ε) (w : ω) :
    Prog ο ω σ π α → σ → σ × List ε × α
  | .ret a, s => (s, [], a)
  | .act _ op next, s =>
    let (s', shown, a) := (next w s).runAlone exec w (perform exec op s).1
    (s', (perform exec op s).2 ++ shown, a)

/-- The pool in which all threads rest. -/
def Pool.resting (rest : ι → κ) (s : σ) : Pool ι κ ω σ ο π := ⟨s, fun i => .ret (rest i)⟩

/-- One thread makes a whole turn while the others rest. -/
def Machine.turn (m : Machine ι κ ω σ ο π ε) (P : ι → σ → π → Option ο → Bool)
    (c : (ι → κ) × σ) (a : Slice ι ω) : Option (((ι → κ) × σ) × List ε) :=
  if m.ready (fun i => .ret (c.1 i)) a.thread then
    match m.body (c.1 a.thread) a.outside with
    | .ret _ => none
    | .act place op next =>
      ((Prog.act place op next).runIf m.exec (P a.thread) a.outside c.2).map fun r =>
        ((Function.update c.1 a.thread r.2.2, r.1), r.2.1)
  else none

/-- A step that is `P`, taken while all other threads rest. -/
def Step.Alone (m : Machine ι κ ω σ ο π ε) (P : ι → σ → π → Option ο → Bool)
    (t : Step ι κ ω σ ο π ε) : Prop :=
  ∃ place op, t.access? m = some (place, op) ∧ P t.act.thread t.pre.mem place op = true ∧
    ∀ j, j ≠ t.act.thread → (t.pre.threads j).place? = none

variable {m : Machine ι κ ω σ ο π ε} {P : ι → σ → π → Option ο → Bool}

theorem resting_update (rest : ι → κ) (s : σ) (i : ι) (k : κ) :
    (⟨s, Function.update (fun j => .ret (rest j)) i (.ret k)⟩ : Pool ι κ ω σ ο π) =
      .resting (Function.update rest i k) s := by
  rw [Pool.resting]
  congr 1
  funext j
  by_cases hj : j = i
  · rw [hj, Function.update_self, Function.update_self]
  · rw [Function.update_of_ne hj, Function.update_of_ne hj]

/-- The rest of a turn is a run of that thread alone. -/
theorem exists_run_of_runIf (threads : ι → Prog ο ω σ π κ) {i : ι} {w : ω}
    (hready : ∀ p, m.ready (Function.update threads i p) i = true)
    (hrest : ∀ j, j ≠ i → (threads j).place? = none) {p : Prog ο ω σ π κ} (hp : p.place? ≠ none)
    {s s' : σ} {es : List ε} {k : κ} (h : p.runIf m.exec (P i) w s = some (s', es, k))
    {q : Prog ο ω σ π κ} (hq : m.resume q w = p) :
    ∃ tr, Run m.step ⟨s, Function.update threads i q⟩ tr
        ⟨s', Function.update threads i (.ret k)⟩ ∧
      tr.flatMap Transition.events = es ∧ ∀ t ∈ tr, Step.Alone m P t := by
  induction p generalizing s es q with
  | ret a => exact absurd rfl hp
  | act place op next ih =>
      simp only [Prog.runIf] at h
      split at h
      case isFalse => cases h
      case isTrue hP =>
        obtain ⟨⟨s'', es', k'⟩, hnext, hr⟩ := Option.map_eq_some_iff.mp h
        obtain ⟨rfl, rfl, rfl⟩ := hr
        have hresume : m.resume (Function.update threads i q i) w = .act place op next := by
          rw [Function.update_self, hq]
        let t : Step ι κ ω σ ο π ε := ⟨⟨s, Function.update threads i q⟩, ⟨i, w⟩,
          (perform m.exec op s).2,
          ⟨(perform m.exec op s).1, Function.update threads i (next w s)⟩⟩
        have hs : t.IsStep m.step := by
          show m.step ⟨s, Function.update threads i q⟩ ⟨i, w⟩ = _
          simp only [Machine.step, hready, if_true, hresume, Function.update_idem, t]
        have hfirst : Run m.step t.pre [t] t.post := by
          simpa using Run.snoc (t := t) Run.refl hs
        have halone : Step.Alone m P t := by
          refine ⟨place, op, ?_, hP, fun j hj => ?_⟩
          · simp only [Step.access?, t, hresume]
          · simp only [t, Function.update_of_ne hj, hrest j hj]
        cases hthen : next w s with
        | ret a =>
            rw [hthen] at hnext
            obtain ⟨rfl, rfl, rfl⟩ := hnext
            refine ⟨[t], ?_, by simp [t], by simpa using halone⟩
            simpa only [t, hthen] using hfirst
        | act place' op' next' =>
            have hresumed : m.resume (next w s) w = next w s := by
              rw [hthen]
              rfl
            obtain ⟨tr, hrun, hevents, hall⟩ := ih w s (by simp [hthen, Prog.place?]) hnext hresumed
            refine ⟨t :: tr, hfirst.append hrun, by simp [hevents, t], ?_⟩
            simpa using ⟨halone, hall⟩

/-- Turns one after the other are a run. -/
theorem exists_run_of_turns
    (hready : ∀ threads i p, m.ready (Function.update threads i p) i = m.ready threads i)
    {c c' : (ι → κ) × σ} {turns : List (Slice ι ω)}
    {tr : List (Transition ((ι → κ) × σ) (Slice ι ω) ε)}
    (h : exec (m.turn P) c turns = some (tr, c')) :
    ∃ tr', Run m.step (.resting c.1 c.2) tr' (.resting c'.1 c'.2) ∧
      tr'.flatMap Transition.events = tr.flatMap Transition.events ∧ ∀ t ∈ tr', Step.Alone m P t := by
  have hrun := exec_run h
  clear h
  induction hrun with
  | refl => exact ⟨[], .refl, rfl, by simp⟩
  | @snoc tr t _ hs ih =>
      obtain ⟨tr', hrun', hevents, hall⟩ := ih
      have hturn : m.turn P t.pre t.act = some (t.post, t.events) := hs
      unfold Machine.turn at hturn
      split at hturn
      case isFalse => cases hturn
      case isTrue hgo =>
        split at hturn
        case h_1 => cases hturn
        case h_2 place op next hbody =>
          obtain ⟨⟨s', es, k⟩, hrest, hr⟩ := Option.map_eq_some_iff.mp hturn
          obtain ⟨hpost, hes⟩ := Prod.mk.inj hr
          obtain ⟨tr'', hrun'', hevents'', hall''⟩ := exists_run_of_runIf (P := P)
            (fun i => .ret (t.pre.1 i)) (fun p => by rw [hready, hgo]) (fun _ _ => rfl)
            (by simp [Prog.place?]) hrest (q := .ret (t.pre.1 t.act.thread)) hbody
          rw [Function.update_eq_self] at hrun''
          rw [← hpost, ← resting_update]
          refine ⟨tr' ++ tr'', hrun'.append hrun'', ?_, ?_⟩
          · simp [hevents, hevents'', ← hes]
          · intro u hu
            rcases List.mem_append.mp hu with hu | hu
            · exact hall u hu
            · exact hall'' u hu

theorem runIf_true {exec : ο → σ → σ × List ε} {w : ω} (p : Prog ο ω σ π κ) (s : σ) :
    p.runIf exec (fun _ _ _ => true) w s = some (p.runAlone exec w s) := by
  induction p generalizing s with
  | ret a => rfl
  | act place op next ih => simp only [Prog.runIf, Prog.runAlone, if_true, ih, Option.map_some]

/-- A thread that may move can run alone to the end of its program. -/
theorem exists_run_alone
    (hready : ∀ threads i p, m.ready (Function.update threads i p) i = m.ready threads i)
    {rest : ι → κ} {i : ι} (hgo : m.ready (fun i => .ret (rest i)) i = true) {w : ω}
    (hbody : (m.body (rest i) w).place? ≠ none) {s s' : σ} {es : List ε} {k : κ}
    (halone : (m.body (rest i) w).runAlone m.exec w s = (s', es, k)) :
    ∃ tr, Run m.step (.resting rest s) tr (.resting (Function.update rest i k) s') ∧
      tr.flatMap Transition.events = es := by
  obtain ⟨tr, hrun, hevents, _⟩ := exists_run_of_runIf (P := fun _ _ _ _ => true)
    (fun i => .ret (rest i)) (fun p => by rw [hready, hgo]) (fun _ _ => rfl) hbody
    ((runIf_true _ s).trans (congrArg some halone)) (q := .ret (rest i)) rfl
  rw [Function.update_eq_self, resting_update] at hrun
  exact ⟨tr, hrun, hevents⟩

namespace Prog

variable {α β : Type} {exec : ο → σ → σ × List ε} {w : ω} {s : σ}

@[simp] theorem runAlone_ret (a : α) : (.ret a : Prog ο ω σ π α).runAlone exec w s = (s, [], a) :=
  rfl

@[simp] theorem runAlone_read (place : π) (next : ω → σ → Prog ο ω σ π α) :
    (.act place none next : Prog ο ω σ π α).runAlone exec w s = (next w s).runAlone exec w s := rfl

@[simp] theorem runAlone_write (place : π) (op : ο) (next : ω → σ → Prog ο ω σ π α) :
    (.act place (some op) next : Prog ο ω σ π α).runAlone exec w s =
      let r := (next w s).runAlone exec w (exec op s).1
      (r.1, (exec op s).2 ++ r.2.1, r.2.2) := rfl

@[simp] theorem runAlone_load (place : π) (f : ω → σ → α) :
    (load place f : Prog ο ω σ π α).runAlone exec w s = (s, [], f w s) := rfl

@[simp] theorem runAlone_store (place : π) (op : ο) :
    (store place op : Prog ο ω σ π Unit).runAlone exec w s =
      ((exec op s).1, (exec op s).2, ()) := by
  simp [store, runAlone]

@[simp] theorem runAlone_ite {c : Prop} {_ : Decidable c} (p q : Prog ο ω σ π α) :
    (if c then p else q).runAlone exec w s =
      if c then p.runAlone exec w s else q.runAlone exec w s := by
  split <;> rfl

@[simp] theorem runAlone_when {c : Prop} {_ : Decidable c} (p : Prog ο ω σ π Unit) :
    (when c p).runAlone exec w s = if c then p.runAlone exec w s else (s, [], ()) := by
  unfold when
  split <;> rfl

@[simp low] theorem runAlone_bind (p : Prog ο ω σ π α) (f : α → Prog ο ω σ π β) :
    (p >>= f).runAlone exec w s =
      let r := p.runAlone exec w s
      let r' := (f r.2.2).runAlone exec w r.1
      (r'.1, r.2.1 ++ r'.2.1, r'.2.2) := by
  induction p generalizing s with
  | ret a => rfl
  | act place op next ih => simp only [act_bind, runAlone, ih, List.append_assoc]

end Prog

end Turns

-- ---------------------------------------------------------------------------
-- What every access of a program is
-- ---------------------------------------------------------------------------

namespace Prog

variable {α β : Type}

/-- All accesses of the program are `P`, and what it returns is `Q`, whatever it reads. -/
def Each (P : π → Option ο → Prop) (Q : α → Prop) : Prog ο ω σ π α → Prop
  | .ret a => Q a
  | .act place op next => P place op ∧ ∀ w s, (next w s).Each P Q

variable {P P' : π → Option ο → Prop} {Q Q' : α → Prop}

@[simp] theorem each_ret {a : α} : (.ret a : Prog ο ω σ π α).Each P Q ↔ Q a := Iff.rfl

@[simp] theorem each_act {place : π} {op : Option ο} {next : ω → σ → Prog ο ω σ π α} :
    (Prog.act place op next).Each P Q ↔ P place op ∧ ∀ w s, (next w s).Each P Q := Iff.rfl

@[simp] theorem each_bind {p : Prog ο ω σ π α} {f : α → Prog ο ω σ π β} {Q : β → Prop} :
    (p >>= f).Each P Q ↔ p.Each P fun a => (f a).Each P Q := by
  induction p with
  | ret a => rfl
  | act place op next ih => simp only [act_bind, each_act, ih]

@[simp] theorem each_ite {c : Prop} [Decidable c] {p q : Prog ο ω σ π α} :
    (if c then p else q).Each P Q ↔ (c → p.Each P Q) ∧ (¬ c → q.Each P Q) := by
  split_ifs with hc <;> simp [hc]

@[simp] theorem each_when {c : Prop} [Decidable c] {p : Prog ο ω σ π Unit} {Q : Unit → Prop} :
    (Prog.when c p).Each P Q ↔ (c → p.Each P Q) ∧ (¬ c → Q ()) := each_ite

theorem Each.mono {p : Prog ο ω σ π α} (hp : p.Each P Q)
    (hP : ∀ place op, P place op → P' place op) (hQ : ∀ a, Q a → Q' a) : p.Each P' Q' := by
  induction p with
  | ret a => exact hQ a hp
  | act place op next ih => exact ⟨hP place op hp.1, fun w s => ih w s (hp.2 w s)⟩

end Prog

-- ---------------------------------------------------------------------------
-- Rely and guarantee
-- ---------------------------------------------------------------------------

/-- What a thread relies on at a place, or where it rests, what it guarantees of its accesses, and
    what it knows of the memory when it makes them. -/
structure Contract (π ο σ : Type) where
  rely : Option π → σ → σ → Prop
  guarantee : π → Option ο → σ → Prop
  known : π → σ → Prop

namespace Prog

variable {α β : Type} (exec : ο → σ → σ × List ε) (C : Contract π ο σ)

/-- The program keeps the contract from the memory `s` on, whatever the others do in between, and
    ends with `Q`. -/
def Safe (Q : α → σ → Prop) : Prog ο ω σ π α → σ → Prop
  | .ret a, s => Q a s
  | .act place op next, s =>
    ∀ s', Relation.ReflTransGen (C.rely (some place)) s s' → C.known place s' → ∀ w,
      C.guarantee place op s' ∧ (next w s').Safe Q (perform exec op s').1

variable {exec C} {Q Q' : α → σ → Prop} {s s' : σ}

/-- What the other threads do keeps a program safe, and what it ends with if that is stable. -/
theorem Safe.rely {p : Prog ο ω σ π α} (hp : p.Safe exec C Q s)
    (hstable : ∀ a, Q a s → C.rely none s s' → Q a s') (h : C.rely p.place? s s') :
    p.Safe exec C Q s' := by
  cases p with
  | ret a => exact hstable a hp h
  | act place op next => exact fun u hu => hp u (.head h hu)

theorem safe_bind {p : Prog ο ω σ π α} {f : α → Prog ο ω σ π β} {Q : β → σ → Prop} :
    (p >>= f).Safe exec C Q s ↔ p.Safe exec C (fun a s => (f a).Safe exec C Q s) s := by
  induction p generalizing s with
  | ret a => rfl
  | act place op next ih => simp only [act_bind, Safe, ih]

theorem Safe.mono {p : Prog ο ω σ π α} (hp : p.Safe exec C Q s) (hQ : ∀ a s, Q a s → Q' a s) :
    p.Safe exec C Q' s := by
  induction p generalizing s with
  | ret a => exact hQ a s hp
  | act place op next ih =>
      intro u hu hknown w
      obtain ⟨hguarantee, hnext⟩ := hp u hu hknown w
      exact ⟨hguarantee, ih w u hnext⟩

/-- A program whose accesses are all harmless is safe. -/
theorem Each.safe {P : π → Option ο → Prop} {Q : α → Prop} {p : Prog ο ω σ π α} (hp : p.Each P Q)
    (hP : ∀ place op s, P place op → C.known place s → C.guarantee place op s) (s : σ) :
    p.Safe exec C (fun a _ => Q a) s := by
  induction p generalizing s with
  | ret a => exact hp
  | act place op next ih =>
      intro u _ hknown w
      exact ⟨hP place op u hp.1 hknown, ih w u (hp.2 w u) _⟩

end Prog

section Rule

variable {m : Machine ι κ ω σ ο π ε} {C : ι → Contract π ο σ} {Q : ι → κ → σ → Prop}

/-- Every thread keeps its contract from here on. -/
def Kept (m : Machine ι κ ω σ ο π ε) (C : ι → Contract π ο σ) (Q : ι → κ → σ → Prop)
    (c : Pool ι κ ω σ ο π) : Prop :=
  ∀ i, (c.threads i).Safe m.exec (C i) (Q i) c.mem

/-- The thread that moves keeps its guarantee, if it knows what it should at its place. If what it
    does is then within what the others rely on, all contracts stay kept. -/
theorem Kept.step {t : Step ι κ ω σ ο π ε} (h : Kept m C Q t.pre) (hs : t.IsStep m.step)
    (hbody : ∀ i k w s, Q i k s → (m.body k w).Safe m.exec (C i) (Q i) s)
    (hstable : ∀ i k s s', Q i k s → (C i).rely none s s' → Q i k s') {place : π} {op : Option ο}
    (haccess : t.access? m = some (place, op))
    (hknown : (C t.act.thread).known place t.pre.mem) :
    (C t.act.thread).guarantee place op t.pre.mem ∧
      ((∀ j, j ≠ t.act.thread → (C j).rely (t.pre.threads j).place? t.pre.mem t.post.mem) →
        Kept m C Q t.post) := by
  obtain ⟨place', op', next, hresume, haccess', _, hmem, _, hthreads⟩ := Step.cases hs
  obtain ⟨rfl, rfl⟩ := Prod.mk.inj (Option.some.inj (haccess'.symm.trans haccess))
  have hsafe : (Prog.act place' op' next).Safe m.exec (C t.act.thread) (Q t.act.thread)
      t.pre.mem := by
    have hthread := h t.act.thread
    rw [← hresume]
    unfold Machine.resume
    split
    case h_1 k hrest =>
      rw [hrest] at hthread
      exact hbody _ k _ _ hthread
    case h_2 hact =>
      rw [hact] at hthread
      exact hthread
  obtain ⟨hguarantee, hnext⟩ := hsafe _ .refl hknown t.act.outside
  refine ⟨hguarantee, fun hrely j => ?_⟩
  rw [hthreads]
  by_cases hj : j = t.act.thread
  · rw [hj, Function.update_self, hmem]
    exact hnext
  · rw [Function.update_of_ne hj]
    exact (h j).rely (fun k hQ => hstable j k _ _ hQ) (hrely j hj)

end Rule

end SharedMemory
