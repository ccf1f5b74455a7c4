-- SUMMARY: The nodes of one enclave, what they share, and when each of them runs as it would alone.
import TriHaRd.Clock.Moves
import TriHaRd.Isolation.Footprint
import TriHaRd.Network.Nonces

/-!
# Nodes of one enclave

An enclave hosts a node for each port. The function-local statics are those of the
enclave: `init` of `incrementNonce`, which only the first node finds false, and
the counters and flags of `Statics`, which every node reads and writes as if they
were its own.

A node runs as it would alone in a fresh enclave as long as every static that one
of its steps uses still holds what the node itself has left there.
-/

namespace TriHaRd

open Lts

/-- A node and its member `nonce`. The member `statics` of the node is not used here. -/
structure Hosted where
  node : Shutdown
  nonce : Nonce
deriving DecidableEq, Repr

/-- The statics, and the map `nodes` from ports to nodes. -/
structure Enclave where
  statics : Statics
  init : Bool
  nodes : UInt16 → Option Hosted

inductive EnclaveAction where
  /-- `ecall_init`, with `time_authority` and what `setup_socket` leaves in `sock`. The node is
      constructed where the memory holds `mem` and `nonce`. -/
  | init (port : UInt16) (mem : ENode) (nonce : Nonce) (tscFreq shadowTscFreq : ℚ)
      (sleepAttackMs : ℤ) (timeAuthority : Addr) (fd : ℤ)
  /-- A step of the node at the port. -/
  | call (port : UInt16) (a : ShutdownAction)
deriving DecidableEq, Repr

def EnclaveAction.port : EnclaveAction → UInt16
  | .init port _ _ _ _ _ _ _ => port
  | .call port _ => port

/-- An event of a node, and the nonce with which a message is encrypted. -/
structure Shown where
  nonce : Nonce
  event : Event
deriving DecidableEq, Repr

/-- The node with these statics. -/
def Shutdown.withStatics (s : Shutdown) (statics : Statics) : Shutdown :=
  { s with system.node.statics := statics }

namespace Enclave

def fresh : Enclave := ⟨.init, false, fun _ => none⟩

/-- The events of a step, with a call of `incrementNonce` before each message. -/
def sealAll (init : Bool) (nonce : Nonce) : List Event → (Bool × Nonce) × List Shown
  | [] => ((init, nonce), [])
  | e :: es =>
    let (init, nonce) := match e with
      | .sent _ => incrementNonce init nonce
      | _ => (init, nonce)
    let (final, rest) := sealAll init nonce es
    (final, ⟨nonce, e⟩ :: rest)

/-- `none` means that the action cannot be taken now. -/
def step (b : Build) (e : Enclave) : EnclaveAction → Option (Enclave × List Shown)
  | .init port mem nonce tscFreq shadowTscFreq sleepAttackMs timeAuthority fd =>
    match e.nodes port with
    -- `SOCKET_ALREADY_EXISTS`
    | some _ => some (e, [])
    | none =>
      let node := ENode.construct mem .init port tscFreq shadowTscFreq sleepAttackMs timeAuthority
        fd
      let (init, nonce) := incrementNonce e.init nonce
      -- the encryption of `test_encdec`
      let (init, nonce) := incrementNonce init nonce
      some ({ e with
        init := init
        nodes := Function.update e.nodes port (some ⟨.initial (.boot node), nonce⟩) }, [])
  | .call port a =>
    match e.nodes port with
    | none => none
    | some host =>
      match (host.node.withStatics e.statics).step b a with
      | none => none
      | some (node, es) =>
        let ((init, nonce), shown) := sealAll e.init host.nonce es
        some ({
          statics := node.system.node.statics
          init := init
          nodes := Function.update e.nodes port (some ⟨node.withStatics .init, nonce⟩) }, shown)

end Enclave

abbrev EnclaveStep := Lts.Transition Enclave EnclaveAction Shown

abbrev EnclaveRun (b : Build) : Enclave → List EnclaveStep → Enclave → Prop :=
  Lts.Run (Enclave.step b)

/-- `τ` in the members in `W`, and `σ` in the others. -/
def Statics.patch (W : Member → Bool) (σ τ : Statics) : Statics where
  taintedMsgCount := bif W .taintedMsgCount then τ.taintedMsgCount else σ.taintedMsgCount
  passCount := bif W .passCount then τ.passCount else σ.passCount
  startupCount := bif W .startupCount then τ.startupCount else σ.startupCount
  trainStartTs := bif W .trainStartTs then τ.trainStartTs else σ.trainStartTs
  trainStopTs := bif W .trainStopTs then τ.trainStopTs else σ.trainStopTs
  enterFreq := bif W .enterFreq then τ.enterFreq else σ.enterFreq
  pollCount := bif W .pollCount then τ.pollCount else σ.pollCount
  ntpStep := bif W .ntpStep then τ.ntpStep else σ.ntpStep

/-- What a step fixes of the statics of the enclave. -/
def Enclave.fixes (b : Build) (e : Enclave) (a : EnclaveAction) (m : Member) : Bool :=
  match a with
  | .init _ _ _ _ _ _ _ _ => false
  | .call port a => (e.nodes port).any fun host => (host.node.withStatics e.statics).fixes b a m

/-- What the steps of the node at the port have left in the statics, whatever others have stored
    there since. -/
def ownStatics (b : Build) (port : UInt16) (past : List EnclaveStep) : Statics :=
  past.foldl (fun own t =>
    if t.act.port = port then own.patch (t.pre.fixes b t.act) t.post.statics else own) .init

/-- The step of a node uses no static that holds something else than the node has left there. A
    node that is constructed after another finds zeros in its nonce. -/
def Undisturbed (b : Build) (past : List EnclaveStep) (t : EnclaveStep) : Prop :=
  match t.act with
  | .init port _ nonce _ _ _ _ _ => t.pre.nodes port = none → t.pre.init = true → nonce = zeroNonce
  | .call port a => ∀ host, t.pre.nodes port = some host → ∀ m,
      (host.node.withStatics t.pre.statics).uses b a m = true →
        (host.node.withStatics t.pre.statics).system.node.contents m =
          (host.node.withStatics (ownStatics b port past)).system.node.contents m

/-- The step that the node at the port takes alone. -/
structure SameAlone (port : UInt16) (t t' : EnclaveStep) : Prop where
  act : t'.act = t.act
  events : t'.events = t.events
  post : t'.post.nodes port = t.post.nodes port

-- ---------------------------------------------------------------------------
-- One step
-- ---------------------------------------------------------------------------

namespace Enclave

variable {b : Build} {e e' : Enclave} {shown : List Shown}

/-- After the first call of `incrementNonce` in the enclave the nonce stays as it is. -/
theorem sealAll_true (nonce : Nonce) (es : List Event) :
    sealAll true nonce es = ((true, nonce), es.map fun x => ⟨nonce, x⟩) := by
  induction es with
  | nil => rfl
  | cons x es ih => cases x <;> simp [sealAll, incrementNonce, ih]

/-- The enclave after `node`, the state in which a call leaves the node at the port. -/
def after (e : Enclave) (port : UInt16) (node : Shutdown) (nonce : Nonce) : Enclave where
  statics := node.system.node.statics
  init := true
  nodes := Function.update e.nodes port (some ⟨node.withStatics .init, nonce⟩)

theorem after_nodes (e : Enclave) (port : UInt16) (node : Shutdown) (nonce : Nonce) :
    (e.after port node nonce).nodes port = some ⟨node.withStatics .init, nonce⟩ :=
  Function.update_self ..

theorem step_call {port : UInt16} {x : ShutdownAction} {host : Hosted} (hinit : e.init = true)
    (hhost : e.nodes port = some host) :
    e.step b (.call port x) = ((host.node.withStatics e.statics).step b x).map fun r =>
      (e.after port r.1 host.nonce, r.2.map fun x => ⟨host.nonce, x⟩) := by
  simp only [step, hhost]
  cases (host.node.withStatics e.statics).step b x with
  | none => rfl
  | some r =>
      simp only [hinit, sealAll_true]
      rfl

/-- The enclave with a new node, which has called `incrementNonce`. -/
def construct (e : Enclave) (port : UInt16) (node : ENode) (nonce : Nonce) : Enclave :=
  { e with
    init := true
    nodes := Function.update e.nodes port (some ⟨.initial (.boot node), nonce⟩) }

theorem construct_nodes (e : Enclave) (port : UInt16) (node : ENode) (nonce : Nonce) :
    (e.construct port node nonce).nodes port = some ⟨.initial (.boot node), nonce⟩ :=
  Function.update_self ..

theorem step_init {port : UInt16} {mem : ENode} {nonce : Nonce} {tscFreq shadowTscFreq : ℚ}
    {sleepAttackMs : ℤ} {timeAuthority : Addr} {fd : ℤ} (hnew : e.nodes port = none) :
    e.step b (.init port mem nonce tscFreq shadowTscFreq sleepAttackMs timeAuthority fd) =
      some (e.construct port
        (.construct mem .init port tscFreq shadowTscFreq sleepAttackMs timeAuthority fd)
        (if e.init then nonce else zeroNonce), []) := by
  cases hinit : e.init <;> simp [step, construct, hnew, incrementNonce, hinit]

theorem step_init_again {port : UInt16} {mem : ENode} {nonce : Nonce} {tscFreq shadowTscFreq : ℚ}
    {sleepAttackMs : ℤ} {timeAuthority : Addr} {fd : ℤ} {host : Hosted}
    (hhost : e.nodes port = some host) :
    e.step b (.init port mem nonce tscFreq shadowTscFreq sleepAttackMs timeAuthority fd) =
      some (e, []) := by
  simp only [step, hhost]

/-- A step of another node leaves the node at the port alone. -/
theorem nodes_of_ne {a : EnclaveAction} {port : UInt16} (h : e.step b a = some (e', shown))
    (hport : a.port ≠ port) : e'.nodes port = e.nodes port := by
  cases a with
  | init q mem nonce tscFreq shadowTscFreq sleepAttackMs timeAuthority fd =>
      simp only [step] at h
      split at h
      · cases h
        rfl
      · cases h
        exact Function.update_of_ne (Ne.symm hport) _ _
  | call q x =>
      simp only [step] at h
      split at h
      · cases h
      · split at h
        · cases h
        · cases h
          exact Function.update_of_ne (Ne.symm hport) _ _

/-- Some node has been constructed, and has called `incrementNonce`. -/
def Hosting (e : Enclave) : Prop := ∀ port, e.nodes port ≠ none → e.init = true

theorem Hosting.step {a : EnclaveAction} (h : e.step b a = some (e', shown))
    (hhosting : e.Hosting) : e'.Hosting := by
  cases a with
  | init port mem nonce tscFreq shadowTscFreq sleepAttackMs timeAuthority fd =>
      cases hhost : e.nodes port with
      | some host =>
          simp only [Enclave.step, hhost] at h
          cases h
          exact hhosting
      | none =>
          rw [step_init hhost] at h
          cases h
          exact fun _ _ => rfl
  | call port x =>
      cases hhost : e.nodes port with
      | none =>
          simp only [Enclave.step, hhost] at h
          cases h
      | some host =>
          have hinit : e.init = true := hhosting port (by simp [hhost])
          rw [step_call hinit hhost, Option.map_eq_some_iff] at h
          obtain ⟨r, _, hr⟩ := h
          cases hr
          exact fun _ _ => rfl

end Enclave

-- ---------------------------------------------------------------------------
-- Statics
-- ---------------------------------------------------------------------------

/-- `σ` and `τ` differ in `startup_count` at most. -/
def Statics.SameLive (σ τ : Statics) : Prop := τ = { σ with startupCount := τ.startupCount }

theorem contents_withStatics {σ τ : Statics} (h : σ.SameLive τ) (s : Shutdown) {m : Member}
    (hm : m.isDead = false) :
    (s.withStatics τ).system.node.contents m = (s.withStatics σ).system.node.contents m := by
  rw [h]
  cases m <;> first | rfl | cases hm

theorem ownStatics_snoc (b : Build) (port : UInt16) (past : List EnclaveStep) (t : EnclaveStep) :
    ownStatics b port (past ++ [t]) = if t.act.port = port then
      (ownStatics b port past).patch (t.pre.fixes b t.act) t.post.statics
    else ownStatics b port past := by
  simp [ownStatics]

/-- What is not static does not depend on the statics. -/
theorem contents_withStatics_of_not_static (s : Shutdown) (σ τ : Statics) {m : Member}
    (hm : m.isStatic = false) :
    (s.withStatics σ).system.node.contents m = (s.withStatics τ).system.node.contents m := by
  cases m <;> first | rfl | cases hm

/-- Two stores that differ in statics only. -/
theorem withStatics_put (s : Shutdown) (σ : Statics) {y : Contents}
    (h : ∀ m : Member, m.isStatic = false → y m = s.system.node.contents m) :
    (Shutdown.lens.put s y).withStatics σ = s.withStatics σ := by
  simp only [Shutdown.withStatics, Shutdown.lens, System.lens, ENode.withContents,
    h .nbUninterrRounds rfl, h .memAddCount rfl, h .calibMsgCount rfl, h .addCountRef rfl,
    h .tsc rfl, h .tscRef rfl, h .lastUpdateTsc rfl, h .tsRef rfl, h .calibSent rfl,
    h .calibRecvd rfl, h .readfromStopped rfl]
  rfl

theorem sameLive_put {own : Statics} {W : Member → Bool} {s : Shutdown} {y y' : Contents}
    (hown : ∀ m : Member, m.isStatic = true → m.isDead = false →
      y m = (s.withStatics own).system.node.contents m)
    (hy' : ∀ m : Member, m.isDead = false → y' m = patch W y s.system.node.contents m) :
    (own.patch W s.system.node.statics).SameLive
      (Shutdown.lens.put s y').system.node.statics := by
  have hstatic (m : Member) (hm : m.isStatic = true) (hlive : m.isDead = false) :
      y' m = bif W m then s.system.node.contents m
        else (s.withStatics own).system.node.contents m := by
    rw [hy' m hlive, patch, hown m hm hlive]
  simp only [Statics.SameLive, Shutdown.lens, System.lens, ENode.withContents, Statics.patch,
    hstatic .taintedMsgCount rfl rfl, hstatic .passCount rfl rfl, hstatic .trainStartTs rfl rfl,
    hstatic .trainStopTs rfl rfl, hstatic .enterFreq rfl rfl, hstatic .pollCount rfl rfl,
    hstatic .ntpStep rfl rfl]
  rfl

/-- A step that uses what the node has left in the statics is the one that the node takes alone. -/
theorem step_withStatics {b : Build} {node s : Shutdown} {σ τ own : Statics} {x : ShutdownAction}
    {es : List Event} (hs : (node.withStatics σ).step b x = some (s, es))
    (huses : ∀ m, (node.withStatics σ).uses b x m = true →
      (node.withStatics σ).system.node.contents m = (node.withStatics own).system.node.contents m)
    (hown : own.SameLive τ) :
    ∃ s', (node.withStatics τ).step b x = some (s', es) ∧
      s'.withStatics .init = s.withStatics .init ∧
      (own.patch ((node.withStatics σ).fixes b x) s.system.node.statics).SameLive
        s'.system.node.statics := by
  have hconfined := Shutdown.confined b
  obtain ⟨y', hs', hy'⟩ := hconfined.mirrored (node.withStatics σ) x s es
    (node.withStatics τ).system.node.contents hs fun m hm => by
      rw [contents_withStatics hown node (hconfined.live _ _ m hm)]
      exact huses m hm
  refine ⟨_, hs', withStatics_put s .init ?_, sameLive_put ?_ hy'⟩
  · intro m hm
    have hlive : m.isDead = false := by cases m <;> first | rfl | cases hm
    rw [hy' m hlive]
    cases hfixes : (node.withStatics σ).fixes b x m with
    | true => exact patch_of_mem hfixes
    | false =>
        rw [patch_of_not_mem hfixes, contents_withStatics_of_not_static node τ σ hm]
        exact (hconfined.frame hs hlive hfixes).symm
  · intro m hm hlive
    rw [contents_withStatics hown node hlive]
    cases m <;> first | rfl | cases hm

-- ---------------------------------------------------------------------------
-- Alone
-- ---------------------------------------------------------------------------

/-- The node at the port has run as it does alone. -/
structure RunsAlone (b : Build) (port : UInt16) (past : List EnclaveStep) (e : Enclave)
    (tr : List EnclaveStep) (alone : Enclave) : Prop where
  run : EnclaveRun b .fresh tr alone
  same : List.Forall₂ (SameAlone port) (past.filter fun t => t.act.port = port) tr
  node : alone.nodes port = e.nodes port
  init : alone.init = (e.nodes port).isSome
  statics : (ownStatics b port past).SameLive alone.statics

section

variable {b : Build} {port : UInt16} {past tr : List EnclaveStep} {t : EnclaveStep}
  {e alone : Enclave}

theorem RunsAlone.other (hs : t.IsStep (Enclave.step b)) (hport : t.act.port ≠ port)
    (h : RunsAlone b port past t.pre tr alone) :
    RunsAlone b port (past ++ [t]) t.post tr alone := by
  have hnode := Enclave.nodes_of_ne hs hport
  refine ⟨h.run, ?_, h.node.trans hnode.symm, by rw [hnode, h.init], ?_⟩
  · rw [List.filter_append, List.filter_cons_of_neg (by simpa using hport), List.filter_nil,
      List.append_nil]
    exact h.same
  · rw [ownStatics_snoc, if_neg hport]
    exact h.statics

/-- A step of the node at the port, and the same step alone. -/
theorem RunsAlone.snoc {alone' : Enclave} (hport : t.act.port = port)
    (h : RunsAlone b port past t.pre tr alone)
    (hstep : alone.step b t.act = some (alone', t.events))
    (hnode : alone'.nodes port = t.post.nodes port)
    (hinit : alone'.init = (t.post.nodes port).isSome)
    (hstatics : ((ownStatics b port past).patch (t.pre.fixes b t.act) t.post.statics).SameLive
      alone'.statics) :
    RunsAlone b port (past ++ [t]) t.post (tr ++ [⟨alone, t.act, t.events, alone'⟩]) alone' := by
  refine ⟨.snoc (t := ⟨alone, t.act, t.events, alone'⟩) h.run hstep, ?_, hnode, hinit, ?_⟩
  · rw [List.filter_append, List.filter_cons_of_pos (by simpa using hport), List.filter_nil]
    exact List.rel_append h.same (.cons ⟨rfl, rfl, hnode⟩ .nil)
  · rw [ownStatics_snoc, if_pos hport]
    exact hstatics

theorem patch_of_none {W : Member → Bool} (h : ∀ m, W m = false) (σ τ : Statics) :
    σ.patch W τ = σ := by
  simp [Statics.patch, h]

theorem RunsAlone.init_step {mem : ENode} {nonce : Nonce} {tscFreq shadowTscFreq : ℚ}
    {sleepAttackMs : ℤ} {timeAuthority : Addr} {fd : ℤ} (hs : t.IsStep (Enclave.step b))
    (hact : t.act = .init port mem nonce tscFreq shadowTscFreq sleepAttackMs timeAuthority fd)
    (hnonce : t.pre.nodes port = none → t.pre.init = true → nonce = zeroNonce)
    (h : RunsAlone b port past t.pre tr alone) :
    ∃ tr' alone', RunsAlone b port (past ++ [t]) t.post tr' alone' := by
  have hport : t.act.port = port := by rw [hact]; rfl
  have hfixes : ∀ m, t.pre.fixes b t.act m = false := by
    intro m
    rw [hact]
    rfl
  have hstatics (σ : Statics) : (ownStatics b port past).patch (t.pre.fixes b t.act) σ =
      ownStatics b port past := patch_of_none hfixes _ σ
  have hs' : t.pre.step b (.init port mem nonce tscFreq shadowTscFreq sleepAttackMs timeAuthority
      fd) = some (t.post, t.events) := hact ▸ hs
  cases hhost : t.pre.nodes port with
  | some host =>
      have halone : alone.nodes port = some host := h.node.trans hhost
      rw [Enclave.step_init_again hhost] at hs'
      obtain ⟨hpost, hevents⟩ := Prod.mk.inj (Option.some.inj hs')
      refine ⟨_, alone, h.snoc hport ?_ ?_ ?_ ?_⟩
      · rw [hact, Enclave.step_init_again halone, ← hevents]
      · rw [← hpost, h.node]
      · rw [← hpost, h.init]
      · rw [hstatics]
        exact h.statics
  | none =>
      have halone : alone.nodes port = none := h.node.trans hhost
      have haloneInit : alone.init = false := by rw [h.init, hhost]; rfl
      have hzero : (if t.pre.init then nonce else zeroNonce) = zeroNonce := by
        cases hinit : t.pre.init with
        | true => exact hnonce hhost hinit
        | false => rfl
      rw [Enclave.step_init hhost, hzero] at hs'
      obtain ⟨hpost, hevents⟩ := Prod.mk.inj (Option.some.inj hs')
      have hstep : alone.step b (.init port mem nonce tscFreq shadowTscFreq sleepAttackMs
          timeAuthority fd) = some (alone.construct port (.construct mem .init port tscFreq
            shadowTscFreq sleepAttackMs timeAuthority fd) zeroNonce, []) := by
        rw [Enclave.step_init halone, haloneInit]
        rfl
      refine ⟨_, _, h.snoc hport (by rw [hact, hstep, ← hevents]) ?_ ?_ ?_⟩
      · rw [← hpost, Enclave.construct_nodes, Enclave.construct_nodes]
      · rw [← hpost, Enclave.construct_nodes]
        rfl
      · rw [hstatics]
        exact h.statics

theorem RunsAlone.call_step {x : ShutdownAction} (hs : t.IsStep (Enclave.step b))
    (hact : t.act = .call port x) (hhosting : t.pre.Hosting)
    (hundisturbed : Undisturbed b past t) (h : RunsAlone b port past t.pre tr alone) :
    ∃ tr' alone', RunsAlone b port (past ++ [t]) t.post tr' alone' := by
  have hport : t.act.port = port := by rw [hact]; rfl
  have hs' : t.pre.step b (.call port x) = some (t.post, t.events) := hact ▸ hs
  rw [Undisturbed, hact] at hundisturbed
  cases hhost : t.pre.nodes port with
  | none =>
      simp only [Enclave.step, hhost] at hs'
      cases hs'
  | some host =>
      have hinit : t.pre.init = true := hhosting port (by simp [hhost])
      rw [Enclave.step_call hinit hhost, Option.map_eq_some_iff] at hs'
      obtain ⟨⟨s, es⟩, hstep, hpost⟩ := hs'
      obtain ⟨hpost, hevents⟩ := Prod.mk.inj hpost
      obtain ⟨s', hstep', hsame, hstatics⟩ := step_withStatics hstep (hundisturbed host hhost)
        h.statics
      have halone : alone.nodes port = some host := h.node.trans hhost
      have haloneInit : alone.init = true := by rw [h.init, hhost]; rfl
      refine ⟨_, alone.after port s' host.nonce, h.snoc hport ?_ ?_ ?_ ?_⟩
      · rw [hact, Enclave.step_call haloneInit halone, hstep', ← hevents]
        rfl
      · rw [← hpost, Enclave.after_nodes, Enclave.after_nodes, hsame]
      · rw [← hpost, Enclave.after_nodes]
        rfl
      · have hfixes : t.pre.fixes b t.act = (host.node.withStatics t.pre.statics).fixes b x := by
          rw [hact]
          funext m
          simp [Enclave.fixes, hhost]
        rw [hfixes, ← hpost]
        exact hstatics

theorem RunsAlone.step (hs : t.IsStep (Enclave.step b)) (hhosting : t.pre.Hosting)
    (hundisturbed : Undisturbed b past t) (h : RunsAlone b port past t.pre tr alone) :
    ∃ tr' alone', RunsAlone b port (past ++ [t]) t.post tr' alone' := by
  by_cases hport : t.act.port = port
  case neg => exact ⟨tr, alone, h.other hs hport⟩
  case pos =>
    cases hact : t.act with
    | init q mem nonce tscFreq shadowTscFreq sleepAttackMs timeAuthority fd =>
        obtain rfl : q = port := by rw [hact] at hport; exact hport
        rw [Undisturbed, hact] at hundisturbed
        exact h.init_step hs hact hundisturbed
    | call q x =>
        obtain rfl : q = port := by rw [hact] at hport; exact hport
        exact h.call_step hs hact hhosting hundisturbed

/-- In every run in which no step of a node is disturbed, a node takes the steps that it takes alone
    in a fresh enclave: they send the same messages, and leave it in the same states. -/
theorem same_as_alone (hrun : EnclaveRun b .fresh tr e) (hundisturbed : EachStep (Undisturbed b) tr)
    (port : UInt16) :
    ∃ tr' alone, EnclaveRun b .fresh tr' alone ∧
      List.Forall₂ (SameAlone port) (tr.filter fun t => t.act.port = port) tr' ∧
      alone.nodes port = e.nodes port := by
  have hinv := hrun.history_of
    (I := fun past e => e.Hosting ∧ ∃ tr' alone, RunsAlone b port past e tr' alone)
    (fun past t hs hundisturbed ⟨hhosting, _, _, halone⟩ =>
      ⟨hhosting.step hs, halone.step hs hhosting hundisturbed⟩)
    hundisturbed ⟨fun _ hnode => absurd rfl hnode, [], .fresh, .refl, .nil, rfl, rfl, rfl⟩
  obtain ⟨_, tr', alone, h⟩ := hinv
  exact ⟨tr', alone, h.run, h.same, h.node⟩

end

instance (b : Build) : DecidablePred (Function.uncurry (Undisturbed b)) := fun (past, t) =>
  match hact : t.act with
  | .init port _ nonce _ _ _ _ _ =>
    decidable_of_iff ((t.pre.nodes port).isNone = true → t.pre.init = true → nonce = zeroNonce)
      (by simp [Undisturbed, hact])
  | .call port a =>
    decidable_of_iff (∀ host ∈ (t.pre.nodes port).toList, ∀ m : Member,
        (host.node.withStatics t.pre.statics).uses b a m = true →
          (host.node.withStatics t.pre.statics).system.node.contents m =
            (host.node.withStatics (ownStatics b port past)).system.node.contents m)
      (by simp [Undisturbed, hact])

namespace Scenario

/-- Two nodes of one enclave. -/
def hosted : List EnclaveAction :=
  [.init 12345 zeroed zeroNonce 2 2 0 ⟨"127.0.0.1", 12340⟩ 3,
    .init 12346 zeroed zeroNonce 2 2 0 ⟨"127.0.0.1", 12340⟩ 4]

/-- The first answer of the Time Authority to the node at the port. -/
def firstAnswer (port : UInt16) : EnclaveAction :=
  .call port (.task (.recv (driftAnswer ⟨1005, 0⟩) ⟨"127.0.0.1", 12340⟩ (reading 0)))

/-- One of the nodes is calibrated, and the other receives an answer. -/
def calibratedHosted : List EnclaveAction :=
  hosted ++ calibrated.map (fun a => .call 12345 (.task a)) ++ [firstAnswer 12346]

end Scenario

set_option maxRecDepth 10000 in
open Scenario in
/-- The theorem where one node is calibrated and the other steps its clock. -/
theorem same_as_alone_calibrated :
    ∃ tr e, EnclaveRun .aexNotify .fresh tr e ∧ tr.map Transition.act = calibratedHosted ∧
      ∀ port, ∃ tr' alone, EnclaveRun .aexNotify .fresh tr' alone ∧
        List.Forall₂ (SameAlone port) (tr.filter fun t => t.act.port = port) tr' ∧
        alone.nodes port = e.nodes port := by
  obtain ⟨tr, e, hrun, hs⟩ := exists_run_of_exec (Enclave.step .aexNotify) .fresh calibratedHosted
    (fun tr _ => tr.map Transition.act = calibratedHosted ∧
      EachStep (Undisturbed .aexNotify) tr) (by decide +kernel)
  obtain ⟨hact, hundisturbed⟩ := hs
  exact ⟨tr, e, hrun, hact, same_as_alone hrun hundisturbed⟩

open Scenario in
/-- Each of two nodes receives its first answer. The second does not step its clock, since the
    first has stored false in `enter_freq`. -/
theorem first_answer_missed :
    ¬ ∀ (b : Build) (tr : List EnclaveStep) (e : Enclave), EnclaveRun b .fresh tr e →
      ∀ port, ∃ tr' alone, EnclaveRun b .fresh tr' alone ∧
        List.Forall₂ (SameAlone port) (tr.filter fun t => t.act.port = port) tr' ∧
        alone.nodes port = e.nodes port := by
  intro h
  obtain ⟨tr, e, hrun, hs⟩ := exists_run_of_exec (Enclave.step .aexNotify) .fresh
    (hosted ++ [firstAnswer 12345, firstAnswer 12346])
    (fun tr e => (tr.filter fun t => t.act.port = 12346).map Transition.act =
        hosted.drop 1 ++ [firstAnswer 12346] ∧
      (e.nodes 12346).map (fun host => host.node.system.node.clockOffset) =
        some ⟨502, 500000000⟩) (by decide +kernel)
  obtain ⟨hact, hoffset⟩ := hs
  obtain ⟨tr', alone, hrun', hsame, hnode⟩ := h _ _ _ hrun 12346
  have hact' : tr'.map Transition.act = hosted.drop 1 ++ [firstAnswer 12346] :=
    (map_eq_of_forall₂ hsame fun _ _ ht => ht.act).trans hact
  have hsteps : (exec (Enclave.step .aexNotify) .fresh
      (hosted.drop 1 ++ [firstAnswer 12346])).map (fun r =>
        (r.2.nodes 12346).map fun host => host.node.system.node.clockOffset) =
      some (some ⟨0, 0⟩) := by
    decide +kernel
  rw [← hact', hrun'.exec_eq, Option.map_some, hnode, hoffset] at hsteps
  cases hsteps

end TriHaRd
