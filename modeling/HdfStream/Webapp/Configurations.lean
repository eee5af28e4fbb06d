/-
# Reloads and requests happen at once

A reload reads its files one after another, while requests are answered and others try to reload.
`AtomicServer` is a server that knows nothing of this: a reload replaces its configuration at once,
and a request takes the one that is there.

`history` reads off a run what this server does: a request happens when `getRoot()` returns, and a
reload when it sets `root`.  `configurations_atomic` says that the two agree.  Every request the
atomic server has taken is answered once, or still under way, with that configuration; no request
and no reload is lost or seen in part; and the lock is held by the one thread that loads.
-/
import HdfStream.Webapp.ServerSteps

namespace HdfStream.Webapp

open Java Virtual

variable {cfg : ServerConfig} {root : VirtualDirectory} {s s' : Server} {a : Action} {t : Nat}
  {tr : List Action}

/-! ## 1. The atomic server -/

/-- What happens at once. -/
inductive Op where
  | request (call : Call)
  /-- A reload, with the lines of its files. -/
  | reload (contents : List (List JString))

/-- `load`, when the files hold these lines. -/
def loadAll (contents : List (List JString)) : Except JString VirtualDirectory :=
  contents.foldlM (fun vdir lines => addFromReader lines vdir) newRoot

structure AtomicServer where
  root : VirtualDirectory
  /-- The requests, and the configurations they are answered with. -/
  seen : List (Call × VirtualDirectory)

def AtomicServer.next (a : AtomicServer) : Op → AtomicServer
  | .request call => { a with seen := a.seen ++ [(call, a.root)] }
  | .reload contents =>
    match loadAll contents with
    | .ok vdir => { a with root := vdir }
    | .error _ => a

/-- The server after these operations. -/
def atomicServer (root : VirtualDirectory) (ops : List Op) : AtomicServer :=
  ops.foldl AtomicServer.next { root := root, seen := [] }

/-- What a run has done: the files the threads have read in their last reloads, and the
operations. -/
structure History where
  read : Nat → List (List JString)
  ops : List Op

def History.next (h : History) : Action → History
  | .request _ call => { h with ops := h.ops ++ [.request call] }
  | .reload t => { h with read := Function.update h.read t [] }
  | .readFile t (some lines) => { h with read := Function.update h.read t (h.read t ++ [lines]) }
  | .publish t => { h with ops := h.ops ++ [.reload (h.read t)] }
  | _ => h

def history (tr : List Action) : History :=
  tr.foldl History.next { read := fun _ => [], ops := [] }

theorem history_snoc (tr : List Action) (a : Action) : history (tr ++ [a]) = (history tr).next a :=
  List.foldl_append ..

theorem atomicServer_snoc (root : VirtualDirectory) (ops : List Op) (op : Op) :
    atomicServer root (ops ++ [op]) = (atomicServer root ops).next op :=
  List.foldl_append ..

/-- `load` reads the files as one. -/
theorem loadAll_eq (contents : List (List JString)) :
    loadAll contents = addFromReader contents.flatten newRoot := by
  unfold loadAll
  generalize newRoot = vdir
  induction contents generalizing vdir with
  | nil => rfl
  | cons lines contents ih =>
    rw [List.foldlM_cons, List.flatten_cons, addFromReader, addFromReader, List.foldlM_append]
    exact bind_congr fun vdir => ih vdir

theorem loadAll_snoc {contents : List (List JString)} {lines : List JString}
    {vdir vdir' : VirtualDirectory} (h : loadAll contents = .ok vdir)
    (hlines : addFromReader lines vdir = .ok vdir') :
    loadAll (contents ++ [lines]) = .ok vdir' := by
  rw [loadAll, List.foldlM_append]
  rw [loadAll] at h
  rw [h]
  exact (bind_pure _).trans hlines

/-! ## 2. The invariant -/

/-- The request of a thread, and the configuration it has taken. -/
def ThreadPc.pending : ThreadPc → Option (Call × VirtualDirectory)
  | .gotRoot call root => some (call, root)
  | .acquire job | .waiting job | .respond job | .read job _ _ | .put job _ _ _ | .release job _ =>
    some (job.call, job.root)
  | _ => none

/-- The requests under way. -/
def Server.inFlight (cfg : ServerConfig) (s : Server) : List (Call × VirtualDirectory) :=
  (List.range cfg.nrThreads).filterMap fun t => (s.thread t).pending

/-- The requests that have ended. -/
def Server.ended (s : Server) : List (Call × VirtualDirectory) :=
  s.log.map fun answer => (answer.call, answer.root)

/-- The thread has the lock. -/
def ThreadPc.HasLock : ThreadPc → Prop
  | .loading _ _ | .unlock => True
  | _ => False

/-- The requests and the configurations of the two servers. -/
structure Answered (cfg : ServerConfig) (root : VirtualDirectory) (h : History) (s : Server) :
    Prop where
  root_eq : (atomicServer root h.ops).root = s.root
  seen : (atomicServer root h.ops).seen.Perm (s.ended ++ s.inFlight cfg)

/-- The reloads, and the lock. -/
structure Loads (cfg : ServerConfig) (h : History) (s : Server) : Prop where
  loading : ∀ t vdir nrRead, s.thread t = .loading vdir nrRead →
    loadAll (h.read t) = .ok vdir ∧ (h.read t).length = nrRead ∧ nrRead ≤ cfg.nrConfigs
  reloads : ∀ contents, Op.reload contents ∈ h.ops →
    contents.length = cfg.nrConfigs ∧ ∃ vdir, loadAll contents = .ok vdir
  locked : s.locked = true ↔ ∃ t, (s.thread t).HasLock
  one : ∀ t t', (s.thread t).HasLock → (s.thread t').HasLock → t = t'

section Requests

variable {pc : ThreadPc} {x : Call × VirtualDirectory}

theorem inFlight_update (hthread : s'.thread = Function.update s.thread t pc) :
    s'.inFlight cfg = (List.range cfg.nrThreads).filterMap
      (Function.update (fun t => (s.thread t).pending) t pc.pending) := by
  refine List.filterMap_congr fun u _ => ?_
  rw [hthread, Function.update_apply, Function.update_apply]
  split
  · rfl
  · rfl

theorem inFlight_same (hthread : s'.thread = Function.update s.thread t pc)
    (h : pc.pending = (s.thread t).pending) : s'.inFlight cfg = s.inFlight cfg := by
  rw [inFlight_update hthread, h]
  exact congrArg (fun f => (List.range cfg.nrThreads).filterMap f)
    (Function.update_eq_self t fun t => (s.thread t).pending)

/-- A request arrives. -/
theorem inFlight_gain (hthread : s'.thread = Function.update s.thread t pc)
    (ht : t < cfg.nrThreads) (h : (s.thread t).pending = none) (hpc : pc.pending = some x) :
    (s'.inFlight cfg).Perm (x :: s.inFlight cfg) := by
  rw [inFlight_update hthread, hpc]
  have hself : Function.update (fun t => (s.thread t).pending) t none =
      fun t => (s.thread t).pending := by
    rw [← h]
    exact Function.update_eq_self t fun t => (s.thread t).pending
  have hperm := Counting.filterMap_update_some (fun t => (s.thread t).pending) x ht
  rw [hself] at hperm
  exact hperm

/-- A request ends. -/
theorem inFlight_lose (hthread : s'.thread = Function.update s.thread t pc)
    (ht : t < cfg.nrThreads) (h : (s.thread t).pending = some x) (hpc : pc.pending = none) :
    (s.inFlight cfg).Perm (x :: s'.inFlight cfg) := by
  rw [inFlight_update hthread, hpc]
  have hself : Function.update (fun t => (s.thread t).pending) t (some x) =
      fun t => (s.thread t).pending := by
    rw [← h]
    exact Function.update_eq_self t fun t => (s.thread t).pending
  have hperm := Counting.filterMap_update_some (fun t => (s.thread t).pending) x ht
  rw [hself] at hperm
  exact hperm

end Requests

/-! ## 3. One step -/

section Steps

variable {hist hist' : History} {pc pc₀ : ThreadPc}

/-- A step that is no operation, and starts and ends no request. -/
theorem Answered.move (h : Answered cfg root hist s) (hops : hist'.ops = hist.ops)
    (hroot : s'.root = s.root) (hlog : s'.log = s.log)
    (hthread : s'.thread = Function.update s.thread t pc) (hpc₀ : s.thread t = pc₀)
    (hpc : pc.pending = pc₀.pending) : Answered cfg root hist' s' where
  root_eq := by
    rw [hops, hroot]
    exact h.root_eq
  seen := by
    rw [hops, Server.ended, hlog, inFlight_same hthread (hpc₀ ▸ hpc)]
    exact h.seen

/-- The end of a request. -/
theorem Answered.answer (h : Answered cfg root hist s) (ht : t < cfg.nrThreads) {call : Call}
    {vdir : VirtualDirectory} {outcome : Outcome} (hops : hist'.ops = hist.ops)
    (hroot : s'.root = s.root)
    (hlog : s'.log = s.log ++ [{ call := call, root := vdir, outcome := outcome }])
    (hthread : s'.thread = Function.update s.thread t .outside) (hpc₀ : s.thread t = pc₀)
    (hpc : pc₀.pending = some (call, vdir)) : Answered cfg root hist' s' where
  root_eq := by
    rw [hops, hroot]
    exact h.root_eq
  seen := by
    have hperm := inFlight_lose hthread ht (hpc₀ ▸ hpc) rfl
    rw [hops, Server.ended, hlog, List.map_append, List.append_assoc]
    exact h.seen.trans (hperm.append_left _)

theorem hasLock_of_loading {vdir : VirtualDirectory} {nrRead : Nat}
    (h : s.thread t = .loading vdir nrRead) : (s.thread t).HasLock := by
  rw [h]
  trivial

theorem hasLock_update (hthread : s'.thread = Function.update s.thread t pc)
    (hpc₀ : s.thread t = pc₀) (hlock : pc.HasLock ↔ pc₀.HasLock) (u : Nat) :
    (s'.thread u).HasLock ↔ (s.thread u).HasLock := by
  rw [hthread, Function.update_apply]
  split
  · rename_i hut
    rw [hlock, hut, hpc₀]
  · exact Iff.rfl

/-- A step of a thread that does not take or release the lock. -/
theorem Loads.move (h : Loads cfg hist s) (hread : ∀ u, u ≠ t → hist'.read u = hist.read u)
    (hreloads : ∀ contents, Op.reload contents ∈ hist'.ops →
      contents.length = cfg.nrConfigs ∧ ∃ vdir, loadAll contents = .ok vdir)
    (hlocked : s'.locked = s.locked) (hthread : s'.thread = Function.update s.thread t pc)
    (hpc₀ : s.thread t = pc₀) (hlock : pc.HasLock ↔ pc₀.HasLock)
    (hpc : ∀ vdir nrRead, pc = .loading vdir nrRead → loadAll (hist'.read t) = .ok vdir ∧
      (hist'.read t).length = nrRead ∧ nrRead ≤ cfg.nrConfigs) : Loads cfg hist' s' where
  loading u vdir nrRead hu := by
    rw [hthread, Function.update_apply] at hu
    split at hu
    · rename_i hut
      rw [hut]
      exact hpc vdir nrRead hu
    · rename_i hut
      rw [hread u hut]
      exact h.loading u vdir nrRead hu
  reloads := hreloads
  locked := by
    rw [hlocked, h.locked]
    exact exists_congr fun u => (hasLock_update hthread hpc₀ hlock u).symm
  one u u' hu hu' := h.one u u' ((hasLock_update hthread hpc₀ hlock u).mp hu)
    ((hasLock_update hthread hpc₀ hlock u').mp hu')

/-- A step of a request. -/
theorem Loads.request (h : Loads cfg hist s) (hread : hist'.read = hist.read)
    (hreloads : ∀ contents, Op.reload contents ∈ hist'.ops → Op.reload contents ∈ hist.ops)
    (hlocked : s'.locked = s.locked) (hthread : s'.thread = Function.update s.thread t pc)
    (hpc₀ : s.thread t = pc₀) (hlock₀ : ¬ pc₀.HasLock) (hlock : ¬ pc.HasLock) :
    Loads cfg hist' s' :=
  h.move (fun u _ => congrFun hread u) (fun contents hmem => h.reloads contents (hreloads _ hmem))
    hlocked hthread hpc₀ (iff_of_false hlock hlock₀) fun _ _ e => by
      rw [e] at hlock
      exact absurd trivial hlock

/-- `streamResponse` and the call of the library go on with the request. -/
theorem streamResponse_pending (cfg : ServerConfig) (cache : RequestCache) (job : Job)
    (failsAfter : Option Nat) :
    (streamResponse cfg cache job failsAfter).pending = some (job.call, job.root) ∧
      ¬ (streamResponse cfg cache job failsAfter).HasLock := by
  unfold streamResponse
  repeat' split
  all_goals exact ⟨rfl, id⟩

theorem streamObject_pending (cfg : ServerConfig) (hs : HDFStreamCalls) (job : Job)
    (file : VirtualFile) (object : JString) (failsAfter : Option Nat) :
    (streamObject cfg hs job file object failsAfter).pending = some (job.call, job.root) ∧
      ¬ (streamObject cfg hs job file object failsAfter).HasLock := by
  unfold streamObject
  repeat' split
  all_goals try dsimp only
  all_goals repeat' split
  all_goals exact ⟨rfl, id⟩

theorem ThreadStep.answered (ht : t < cfg.nrThreads) (hloads : Loads cfg hist s)
    (h : Answered cfg root hist s) (hstep : ThreadStep cfg s t a s') :
    Answered cfg root (hist.next a) s' := by
  cases hstep with
  | @request call hpc =>
    have hnext : atomicServer root (hist.next (.request t call)).ops =
        (atomicServer root hist.ops).next (.request call) := atomicServer_snoc ..
    refine ⟨?_, ?_⟩
    · rw [hnext]
      exact h.root_eq
    · rw [hnext]
      have hgain : ((s.setThread t (.gotRoot call s.root)).inFlight cfg).Perm
          ((call, s.root) :: s.inFlight cfg) := inFlight_gain rfl ht (hpc ▸ rfl) rfl
      refine (h.seen.append_right [(call, (atomicServer root hist.ops).root)]).trans ?_
      rw [h.root_eq]
      exact (List.perm_append_singleton _ _).trans
        (List.perm_middle.symm.trans (hgain.symm.append_left _))
  | refuse hpc hr => exact h.answer ht rfl rfl rfl rfl hpc rfl
  | construct hpc hr => exact h.move rfl rfl rfl rfl hpc rfl
  | unlimited hpc hmax => exact h.move rfl rfl rfl rfl hpc rfl
  | computeIfAbsent hpc hmax => exact h.move rfl rfl rfl rfl hpc rfl
  | acquire hpc hp hpos => exact h.move rfl rfl rfl rfl hpc rfl
  | respond failsAfter hpc =>
    exact h.move rfl rfl rfl rfl hpc (streamResponse_pending cfg s.cache _ failsAfter).1
  | read hs failsAfter hpc =>
    exact h.move rfl rfl rfl rfl hpc (streamObject_pending cfg hs _ _ _ failsAfter).1
  | put hpc => exact h.move rfl rfl rfl rfl hpc rfl
  | unlimitedRelease hpc hmax => exact h.answer ht rfl rfl rfl rfl hpc rfl
  | release hpc hmax hp => exact h.answer ht rfl rfl rfl rfl hpc rfl
  | reloadBusy hpc hlock => exact ⟨h.root_eq, h.seen⟩
  | reload hpc hlock => exact h.move rfl rfl rfl rfl hpc rfl
  | @readFails lines vdir nrRead hpc hn hlines =>
    have hops : (hist.next (.readFile t lines)).ops = hist.ops := by
      cases lines
      · rfl
      · rfl
    exact h.move hops rfl rfl rfl hpc rfl
  | readFile hpc hn hlines => exact h.move rfl rfl rfl rfl hpc rfl
  | @publish vdir nrRead hpc hn =>
    have hnext : atomicServer root (hist.next (.publish t)).ops =
        { atomicServer root hist.ops with root := vdir } := by
      refine (atomicServer_snoc ..).trans ?_
      rw [AtomicServer.next, (hloads.loading t vdir nrRead hpc).1]
    refine ⟨?_, ?_⟩
    · rw [hnext]
      rfl
    · rw [hnext, Server.ended, inFlight_same rfl (hpc ▸ rfl)]
      exact h.seen
  | unlock hpc => exact h.move rfl rfl rfl rfl hpc rfl

theorem ThreadStep.loads (h : Loads cfg hist s)
    (hstep : ThreadStep cfg s t a s') : Loads cfg (hist.next a) s' := by
  cases hstep with
  | @request call hpc =>
    refine h.request rfl (fun contents hmem => ?_) rfl rfl hpc id id
    rcases List.mem_append.mp hmem with hmem | hmem
    · exact hmem
    · cases List.mem_singleton.mp hmem
  | refuse hpc hr => exact h.request rfl (fun _ hmem => hmem) rfl rfl hpc id id
  | construct hpc hr => exact h.request rfl (fun _ hmem => hmem) rfl rfl hpc id id
  | unlimited hpc hmax => exact h.request rfl (fun _ hmem => hmem) rfl rfl hpc id id
  | computeIfAbsent hpc hmax => exact h.request rfl (fun _ hmem => hmem) rfl rfl hpc id id
  | acquire hpc hp hpos => exact h.request rfl (fun _ hmem => hmem) rfl rfl hpc id id
  | respond failsAfter hpc =>
    exact h.request rfl (fun _ hmem => hmem) rfl rfl hpc id
      (streamResponse_pending cfg s.cache _ failsAfter).2
  | read hs failsAfter hpc =>
    exact h.request rfl (fun _ hmem => hmem) rfl rfl hpc id
      (streamObject_pending cfg hs _ _ _ failsAfter).2
  | put hpc => exact h.request rfl (fun _ hmem => hmem) rfl rfl hpc id id
  | unlimitedRelease hpc hmax => exact h.request rfl (fun _ hmem => hmem) rfl rfl hpc id id
  | release hpc hmax hp => exact h.request rfl (fun _ hmem => hmem) rfl rfl hpc id id
  | reloadBusy hpc hlock =>
    refine h.move (fun u hu => Function.update_of_ne hu ..) h.reloads rfl
      (Function.update_eq_self t s.thread).symm hpc ?_ fun vdir nrRead e => ?_
    · rw [hpc]
    · rw [hpc] at e
      cases e
  | reload hpc hlock =>
    have hnone : ∀ u, ¬ (s.thread u).HasLock := by
      intro u hhas
      rw [h.locked.mpr ⟨u, hhas⟩] at hlock
      cases hlock
    have honly : ∀ u, ((Function.update s.thread t (.loading newRoot 0)) u).HasLock → u = t := by
      intro u hu
      rw [Function.update_apply] at hu
      split at hu
      · assumption
      · exact absurd hu (hnone u)
    refine ⟨fun u vdir nrRead hu => ?_, h.reloads, ?_, fun u u' hu hu' => ?_⟩
    · have hut := honly u (hasLock_of_loading hu)
      rw [Server.setThread_thread, hut, Function.update_self] at hu
      cases hu
      have hread : (hist.next (.reload t)).read u = [] := by
        rw [hut]
        exact Function.update_self ..
      rw [hread]
      exact ⟨rfl, rfl, Nat.zero_le _⟩
    · refine iff_of_true rfl ⟨t, ?_⟩
      rw [Server.setThread_thread, Function.update_self]
      trivial
    · rw [honly u hu, honly u' hu']
  | @readFails lines vdir nrRead hpc hn hlines =>
    refine h.move (fun u hu => ?_) ?_ rfl rfl hpc Iff.rfl fun _ _ e => by cases e
    · cases lines
      · rfl
      · exact Function.update_of_ne hu ..
    · cases lines
      · exact h.reloads
      · exact h.reloads
  | @readFile lines vdir vdir' nrRead hpc hn hlines =>
    obtain ⟨hload, hlength, _⟩ := h.loading t vdir nrRead hpc
    refine h.move (fun u hu => Function.update_of_ne hu ..) h.reloads rfl rfl hpc Iff.rfl ?_
    intro vdir₁ nrRead₁ e
    cases e
    have hread : (hist.next (.readFile t (some lines))).read t = hist.read t ++ [lines] :=
      Function.update_self ..
    rw [hread, List.length_append, hlength]
    exact ⟨loadAll_snoc hload hlines, rfl, hn⟩
  | @publish vdir nrRead hpc hn =>
    obtain ⟨hload, hlength, hle⟩ := h.loading t vdir nrRead hpc
    refine h.move (fun _ _ => rfl) (fun contents hmem => ?_) rfl rfl hpc Iff.rfl
      fun _ _ e => by cases e
    rcases List.mem_append.mp hmem with hmem | hmem
    · exact h.reloads contents hmem
    · cases List.mem_singleton.mp hmem
      exact ⟨by omega, vdir, hload⟩
  | unlock hpc =>
    have hhas : (s.thread t).HasLock := hpc ▸ trivial
    have hnone : ∀ u, ¬ ((Function.update s.thread t .outside) u).HasLock := by
      intro u hu
      rw [Function.update_apply] at hu
      split at hu
      · exact hu
      · rename_i hut
        exact hut (h.one u t hu hhas)
    refine ⟨fun u vdir nrRead hu => ?_, h.reloads, ?_, fun u u' hu _ => absurd hu (hnone u)⟩
    · exact absurd (hasLock_of_loading hu) (hnone u)
    · refine iff_of_false Bool.false_ne_true ?_
      rintro ⟨u, hu⟩
      exact hnone u hu

end Steps

/-! ## 4. Runs -/

theorem answered_start (cfg : ServerConfig) (root : VirtualDirectory) :
    Answered cfg root (history []) (Server.start cfg root) where
  root_eq := rfl
  seen := by
    have hnil : (Server.start cfg root).inFlight cfg = [] :=
      List.filterMap_eq_nil_iff.mpr fun _ _ => rfl
    rw [hnil]
    exact List.Perm.refl []

theorem loads_start (cfg : ServerConfig) (root : VirtualDirectory) :
    Loads cfg (history []) (Server.start cfg root) where
  loading t vdir nrRead h := by cases h
  reloads contents h := absurd h List.not_mem_nil
  locked := by
    refine iff_of_false Bool.false_ne_true ?_
    rintro ⟨t, ht⟩
    exact ht
  one t t' h _ := absurd h id

theorem linear_run (h : (serverMachine cfg root).run tr = some s) :
    Answered cfg root (history tr) s ∧ Loads cfg (history tr) s := by
  refine (serverMachine cfg root).run_induction
    (I := fun tr s => Answered cfg root (history tr) s ∧ Loads cfg (history tr) s) ?_ ?_ tr s h
  · exact ⟨answered_start cfg root, loads_start cfg root⟩
  · intro tr s a s' _ hs hstep
    rw [history_snoc]
    rcases serverStep_cases hstep with ⟨t, ht, _, hstep⟩ | ⟨key, rfl, rfl⟩
    · exact ⟨hstep.answered ht hs.2 hs.1, hstep.loads hs.2⟩
    · exact ⟨⟨hs.1.root_eq, hs.1.seen⟩, hs.2.loading, hs.2.reloads, hs.2.locked, hs.2.one⟩

/-- **Every run is one of a server whose operations happen at once.**  After the operations of the
run that server has the same configuration.  The requests it has taken are those that have ended
and those under way, each once and with the configuration it had at that moment.  Every reload of
it has read all files; the lock is held if and only if a thread is loading, and by one thread
only. -/
theorem configurations_atomic (cfg : ServerConfig) (root : VirtualDirectory) {tr : List Action}
    {s : Server} (h : (serverMachine cfg root).run tr = some s) :
    (atomicServer root (history tr).ops).root = s.root ∧
    (atomicServer root (history tr).ops).seen.Perm (s.ended ++ s.inFlight cfg) ∧
    (∀ contents, Op.reload contents ∈ (history tr).ops →
      contents.length = cfg.nrConfigs ∧ ∃ vdir, loadAll contents = .ok vdir) ∧
    (s.locked = true ↔ ∃ t, (s.thread t).HasLock) ∧
    ∀ t t', (s.thread t).HasLock → (s.thread t').HasLock → t = t' := by
  obtain ⟨hanswered, hloads⟩ := linear_run h
  exact ⟨hanswered.root_eq, hanswered.seen, hloads.reloads, hloads.locked, hloads.one⟩

/-- A request is answered with the old configuration while a new one is set. -/
def reloadRun : List Action :=
  [.reload 1, .readFile 1 (some [lit "f,x,1,1,text/plain"]), .request 0 listRoot, .publish 1,
    .construct 0, .computeIfAbsent 0, .acquire 0, .respond 0 none, .release 0, .unlock 1]

theorem configurations_atomic_reload : ∃ s,
    (serverMachine { smallConfig with nrConfigs := 1 } newRoot).run reloadRun = some s ∧
      s.log.length = 1 ∧ (atomicServer newRoot (history reloadRun).ops).root = s.root ∧
      s.locked = false := by
  have hrun : ((serverMachine { smallConfig with nrConfigs := 1 } newRoot).run reloadRun).map
      (fun s => (s.log.length, s.locked)) = some (1, false) := by decide +kernel
  obtain ⟨s, hs, heq⟩ := Option.map_eq_some_iff.mp hrun
  obtain ⟨hlength, hlocked⟩ := Prod.mk.inj heq
  exact ⟨s, hs, hlength, (configurations_atomic _ newRoot hs).1, hlocked⟩

end HdfStream.Webapp
