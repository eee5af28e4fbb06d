/-
# What a step of the server can do

`ThreadStep` lists the steps of a thread, one by one, with what they need and what they leave;
`threadStep_cases` says that there are no others, and every invariant of the server goes through
it.

The first of these invariants is about the permits.  `requests_limited` says that a user never has
more requests under way than the limit, that the semaphores count them exactly, and who has to wait;
`permit_released` says that a thread with a permit is never held up, and gives it back after four of
its own steps at most.
-/
import HdfStream.Webapp.Server

namespace HdfStream.Webapp

open Java Virtual

variable {cfg : ServerConfig} {root : VirtualDirectory} {s s' : Server} {a : Action} {t : Nat}
  {tr : List Action}

/-! ## 1. The steps -/

/-- The steps of thread `t`. -/
inductive ThreadStep (cfg : ServerConfig) (s : Server) (t : Nat) : Action → Server → Prop where
  | request (call : Call) (h : s.thread t = .outside) :
    ThreadStep cfg s t (.request t call) (s.setThread t (.gotRoot call s.root))
  | refuse {call : Call} {root : VirtualDirectory} {r : Refusal}
    (h : s.thread t = .gotRoot call root) (hr : call.construct cfg root = .error r) :
    ThreadStep cfg s t (.construct t) ((s.answer call root (.refused r)).setThread t .outside)
  | construct {call : Call} {root : VirtualDirectory} {hreq : HDFStreamRequest}
    (h : s.thread t = .gotRoot call root) (hr : call.construct cfg root = .ok hreq) :
    ThreadStep cfg s t (.construct t)
      (s.setThread t (.acquire { call := call, root := root, hreq := hreq }))
  | unlimited {job : Job} (h : s.thread t = .acquire job)
    (hmax : s.crc.maxRequests = 0) :
    ThreadStep cfg s t (.computeIfAbsent t) (s.setThread t (.respond job))
  | computeIfAbsent {job : Job} (h : s.thread t = .acquire job)
    (hmax : s.crc.maxRequests ≠ 0) :
    ThreadStep cfg s t (.computeIfAbsent t)
      ({ s with crc := s.crc.computeIfAbsent job.name }.setThread t (.waiting job))
  | acquire {job : Job} {permits : Int} (h : s.thread t = .waiting job)
    (hp : s.crc.user job.name = some permits) (hpos : 0 < permits) :
    ThreadStep cfg s t (.acquire t)
      ({ s with crc :=
        { s.crc with user := Function.update s.crc.user job.name (some (permits - 1)) } }.setThread
          t (.respond job))
  | respond (failsAfter : Option Nat) {job : Job} (h : s.thread t = .respond job) :
    ThreadStep cfg s t (.respond t failsAfter)
      (s.setThread t (streamResponse cfg s.cache job failsAfter))
  | read (hs : HDFStreamCalls) (failsAfter : Option Nat) {job : Job}
    {file : VirtualFile} {object : JString} (h : s.thread t = .read job file object) :
    ThreadStep cfg s t (.read t hs failsAfter)
      (s.setThread t (streamObject cfg hs job file object failsAfter))
  | put {job : Job} {key : CacheKey} {data : Bytes} {sent : Outcome}
    (h : s.thread t = .put job key data sent) :
    ThreadStep cfg s t (.put t)
      ({ s with cache := s.cache.put key data }.setThread t (.release job sent))
  | unlimitedRelease {job : Job} {outcome : Outcome}
    (h : s.thread t = .release job outcome) (hmax : s.crc.maxRequests = 0) :
    ThreadStep cfg s t (.release t) ((s.answer job.call job.root outcome).setThread t .outside)
  | release {job : Job} {outcome : Outcome} {permits : Int}
    (h : s.thread t = .release job outcome) (hmax : s.crc.maxRequests ≠ 0)
    (hp : s.crc.user job.name = some permits) :
    ThreadStep cfg s t (.release t)
      (({ s with crc := { s.crc with
        user := Function.update s.crc.user job.name (some (permits + 1)) } }.answer job.call
          job.root outcome).setThread t .outside)
  | reloadBusy (h : s.thread t = .outside) (hlock : s.locked = true) :
    ThreadStep cfg s t (.reload t) s
  | reload (h : s.thread t = .outside) (hlock : s.locked = false) :
    ThreadStep cfg s t (.reload t) ({ s with locked := true }.setThread t (.loading newRoot 0))
  | readFails {lines : Option (List JString)} {vdir : VirtualDirectory} {nrRead : Nat}
    (h : s.thread t = .loading vdir nrRead) (hn : nrRead < cfg.nrConfigs)
    (hlines : ∀ ls vdir', lines = some ls → addFromReader ls vdir ≠ .ok vdir') :
    ThreadStep cfg s t (.readFile t lines) (s.setThread t .unlock)
  | readFile {lines : List JString} {vdir vdir' : VirtualDirectory} {nrRead : Nat}
    (h : s.thread t = .loading vdir nrRead) (hn : nrRead < cfg.nrConfigs)
    (hlines : addFromReader lines vdir = .ok vdir') :
    ThreadStep cfg s t (.readFile t (some lines))
      (s.setThread t (.loading vdir' (nrRead + 1)))
  | publish {vdir : VirtualDirectory} {nrRead : Nat}
    (h : s.thread t = .loading vdir nrRead) (hn : ¬ nrRead < cfg.nrConfigs) :
    ThreadStep cfg s t (.publish t) ({ s with root := vdir }.setThread t .unlock)
  | unlock (h : s.thread t = .unlock) :
    ThreadStep cfg s t (.unlock t) ({ s with locked := false }.setThread t .outside)

/-- **The steps of a thread.** -/
theorem threadStep_cases (ha : a.thread? = some t) (h : threadStep cfg s t a = some s') :
    ThreadStep cfg s t a s' := by
  cases a <;> cases ha <;> simp only [threadStep] at h
  case request call =>
    split at h
    · rename_i hpc
      cases h
      exact .request call hpc
    · cases h
  case construct =>
    split at h
    · rename_i hpc
      split at h
      · rename_i hr
        cases h
        exact .refuse hpc hr
      · rename_i hr
        cases h
        exact .construct hpc hr
    · cases h
  case computeIfAbsent =>
    split at h
    · rename_i hpc
      split at h
      · rename_i hmax
        cases h
        exact .unlimited hpc hmax
      · rename_i hmax
        cases h
        exact .computeIfAbsent hpc hmax
    · cases h
  case acquire =>
    split at h
    · rename_i job hpc
      obtain ⟨crc, hcrc, rfl⟩ := Option.map_eq_some_iff.mp h
      unfold ConcurrentRequestCount.acquireUninterruptibly at hcrc
      split at hcrc
      · rename_i permits hp
        split at hcrc
        · rename_i hpos
          cases hcrc
          exact .acquire hpc hp hpos
        · cases hcrc
      · cases hcrc
    · cases h
  case respond failsAfter =>
    split at h
    · rename_i hpc
      cases h
      exact .respond failsAfter hpc
    · cases h
  case read hs failsAfter =>
    split at h
    · rename_i hpc
      cases h
      exact .read hs failsAfter hpc
    · cases h
  case put =>
    split at h
    · rename_i hpc
      cases h
      exact .put hpc
    · cases h
  case release =>
    split at h
    · rename_i job outcome hpc
      obtain ⟨crc, hcrc, rfl⟩ := Option.map_eq_some_iff.mp h
      unfold ConcurrentRequestCount.release at hcrc
      split at hcrc
      · rename_i hmax
        cases hcrc
        exact .unlimitedRelease hpc hmax
      · rename_i hmax
        obtain ⟨permits, hp, rfl⟩ := Option.map_eq_some_iff.mp hcrc
        exact .release hpc hmax hp
    · cases h
  case reload =>
    split at h
    · rename_i hpc
      split at h
      · rename_i hlock
        cases h
        exact .reloadBusy hpc hlock
      · rename_i hlock
        cases h
        exact .reload hpc (Bool.not_eq_true _ ▸ hlock)
    · cases h
  case readFile lines =>
    split at h
    · rename_i vdir nrRead hpc
      split at h
      · rename_i hn
        split at h
        · cases h
          exact .readFails hpc hn fun ls vdir' hls => by cases hls
        · rename_i lines
          split at h
          · rename_i e hlines
            cases h
            refine .readFails hpc hn fun ls vdir' hls hok => ?_
            rw [← Option.some.inj hls, hlines] at hok
            cases hok
          · rename_i vdir' hlines
            cases h
            exact .readFile hpc hn hlines
      · cases h
    · cases h
  case publish =>
    split at h
    · rename_i hpc
      split at h
      · cases h
      · rename_i hn
        cases h
        exact .publish hpc hn
    · cases h
  case unlock =>
    split at h
    · rename_i hpc
      cases h
      exact .unlock hpc
    · cases h

/-- A step of the server is one of a thread, or an entry of the cache is dropped. -/
theorem serverStep_cases (h : serverStep cfg s a = some s') :
    (∃ t < cfg.nrThreads, a.thread? = some t ∧ ThreadStep cfg s t a s') ∨
      ∃ key, a = .evict key ∧
        s' = { s with cache := fun key' => if key' = key then none else s.cache key' } := by
  unfold serverStep at h
  split at h
  · rename_i t hthread
    split at h
    · rename_i ht
      exact .inl ⟨t, ht, hthread, threadStep_cases hthread h⟩
    · cases h
  · split at h
    · rename_i key _
      cases h
      exact .inr ⟨key, rfl, rfl⟩
    · cases h

/-! ## 2. Permits -/

/-- The user whose permit the thread has. -/
def ThreadPc.permit : ThreadPc → Option JString
  | .respond job | .read job _ _ | .put job _ _ _ | .release job _ => some job.name
  | _ => none

/-- The users whose permits the threads have. -/
def Server.permit (s : Server) (t : Nat) : Option JString := (s.thread t).permit

/-- The requests of a user that have a permit. -/
def Server.running (cfg : ServerConfig) (s : Server) (name : JString) : Nat :=
  Permits.holders s.permit cfg.nrThreads name

/-- The steps of its own after which a thread with a permit has given it back. -/
def ThreadPc.stepsLeft : ThreadPc → Nat
  | .respond _ => 4
  | .read _ _ _ => 3
  | .put _ _ _ _ => 2
  | .release _ _ => 1
  | _ => 0

theorem permit_update (pc : ThreadPc) (hthread : s'.thread = Function.update s.thread t pc) :
    s'.permit = Function.update s.permit t pc.permit := by
  funext u
  rw [Server.permit, hthread, Function.update_apply, Function.update_apply]
  split
  · rfl
  · rfl

/-- `streamResponse` keeps the permit, and comes closer to its end. -/
theorem streamResponse_permit (cfg : ServerConfig) (cache : RequestCache) (job : Job)
    (failsAfter : Option Nat) :
    (streamResponse cfg cache job failsAfter).permit = some job.name ∧
      (streamResponse cfg cache job failsAfter).stepsLeft ≤ 3 := by
  unfold streamResponse
  repeat' split
  all_goals exact ⟨rfl, by simp only [ThreadPc.stepsLeft]; omega⟩

/-- So does the call of the library. -/
theorem streamObject_permit (cfg : ServerConfig) (hs : HDFStreamCalls) (job : Job)
    (file : VirtualFile) (object : JString) (failsAfter : Option Nat) :
    (streamObject cfg hs job file object failsAfter).permit = some job.name ∧
      (streamObject cfg hs job file object failsAfter).stepsLeft ≤ 2 := by
  unfold streamObject
  repeat' split
  all_goals try dsimp only
  all_goals repeat' split
  all_goals exact ⟨rfl, by simp only [ThreadPc.stepsLeft]; omega⟩

/-- `computeIfAbsent` finds a semaphore or makes one. -/
theorem computeIfAbsent_cases (crc : ConcurrentRequestCount) (name : JString) :
    (crc.computeIfAbsent name = crc ∧ ∃ permits, crc.user name = some permits) ∨
      (crc.user name = none ∧ crc.computeIfAbsent name =
        { crc with user := Function.update crc.user name (some crc.maxRequests) }) := by
  unfold ConcurrentRequestCount.computeIfAbsent
  split
  · rename_i permits hp
    exact .inl ⟨rfl, permits, hp⟩
  · rename_i hnone
    exact .inr ⟨hnone, rfl⟩

/-- The semaphores and the threads agree. -/
structure Permitted (cfg : ServerConfig) (s : Server) : Prop where
  max : s.crc.maxRequests = cfg.maxRequestsPerUser
  balanced : cfg.maxRequestsPerUser ≠ 0 →
    Permits.Balanced cfg.maxRequestsPerUser cfg.nrThreads s.crc.user s.permit
  waiting : ∀ t job, s.thread t = .waiting job →
    cfg.maxRequestsPerUser ≠ 0 ∧ ∃ permits, s.crc.user job.name = some permits

theorem permitted_start (cfg : ServerConfig) (root : VirtualDirectory) :
    Permitted cfg (Server.start cfg root) where
  max := rfl
  balanced _ := Permits.Balanced.start _ _
  waiting t job h := by cases h

/-- The threads that wait find their semaphores after a step that keeps the semaphores. -/
theorem Permitted.waiting_update (h : Permitted cfg s) {pc : ThreadPc}
    (hthread : s'.thread = Function.update s.thread t pc)
    (hkeep : ∀ k p, s.crc.user k = some p → ∃ p', s'.crc.user k = some p')
    (hpc : ∀ job, pc = .waiting job →
      cfg.maxRequestsPerUser ≠ 0 ∧ ∃ permits, s'.crc.user job.name = some permits)
    (u : Nat) (job : Job) (hu : s'.thread u = .waiting job) :
    cfg.maxRequestsPerUser ≠ 0 ∧ ∃ permits, s'.crc.user job.name = some permits := by
  rw [hthread, Function.update_apply] at hu
  split at hu
  · exact hpc job hu
  · obtain ⟨hmax, permits, hp⟩ := h.waiting u job hu
    exact ⟨hmax, hkeep job.name permits hp⟩

theorem exists_update {user : JString → Option Int} {k : JString} (x : Int) (k' : JString) (p : Int)
    (h : user k' = some p) : ∃ p', Function.update user k (some x) k' = some p' := by
  rw [Function.update_apply]
  split
  · exact ⟨x, rfl⟩
  · exact ⟨p, h⟩

/-- A thread that moves, and neither takes nor gives back a permit. -/
theorem Permitted.move (h : Permitted cfg s) {pc₀ pc : ThreadPc} (hcrc : s'.crc = s.crc)
    (hthread : s'.thread = Function.update s.thread t pc) (hpc₀ : s.thread t = pc₀)
    (hpermit : pc.permit = pc₀.permit) (hpc : ∀ job, pc ≠ .waiting job) : Permitted cfg s' where
  max := hcrc ▸ h.max
  balanced hmax := by
    have hself : Function.update s.permit t pc.permit = s.permit := by
      rw [hpermit, ← hpc₀]
      exact Function.update_eq_self t s.permit
    rw [permit_update _ hthread, hcrc, hself]
    exact h.balanced hmax
  waiting := h.waiting_update hthread (fun _ p hk => ⟨p, hcrc ▸ hk⟩) fun job e => absurd e (hpc job)

/-- Without a limit nobody waits, and the semaphores do not matter. -/
theorem Permitted.move_unlimited (h : Permitted cfg s) (hmax : s.crc.maxRequests = 0)
    {pc : ThreadPc} (hcrc : s'.crc = s.crc) (hthread : s'.thread = Function.update s.thread t pc)
    (hpc : ∀ job, pc ≠ .waiting job) : Permitted cfg s' where
  max := hcrc ▸ h.max
  balanced hne := absurd (h.max ▸ hmax) hne
  waiting := h.waiting_update hthread (fun _ p hk => ⟨p, hcrc ▸ hk⟩) fun job e => absurd e (hpc job)

/-- **A step keeps the semaphores and the threads in agreement.** -/
theorem ThreadStep.permitted (ht : t < cfg.nrThreads) (h : Permitted cfg s)
    (hstep : ThreadStep cfg s t a s') : Permitted cfg s' := by
  cases hstep with
  | request call hpc => exact h.move rfl rfl hpc rfl fun _ e => by cases e
  | refuse hpc hr => exact h.move rfl rfl hpc rfl fun _ e => by cases e
  | construct hpc hr => exact h.move rfl rfl hpc rfl fun _ e => by cases e
  | unlimited hpc hmax => exact h.move_unlimited hmax rfl rfl fun _ e => by cases e
  | @computeIfAbsent job hpc hmax =>
    have hne : cfg.maxRequestsPerUser ≠ 0 := h.max ▸ hmax
    have hself : Function.update s.permit t none = s.permit := by
      have hfree : s.permit t = none := by
        rw [Server.permit, hpc]
        rfl
      rw [← hfree]
      exact Function.update_eq_self t s.permit
    rcases computeIfAbsent_cases s.crc job.name with ⟨hcrc, permits, hp⟩ | ⟨hnone, hcrc⟩
    · rw [hcrc]
      refine ⟨h.max, fun _ => ?_, ?_⟩
      · rw [permit_update (s := s) (t := t) (.waiting job) rfl]
        exact hself.symm ▸ h.balanced hne
      · refine h.waiting_update rfl (fun _ p hk => ⟨p, hk⟩) fun job' e => ?_
        cases e
        exact ⟨hne, permits, hp⟩
    · rw [hcrc]
      refine ⟨h.max, fun _ => ?_, ?_⟩
      · rw [permit_update (s := s) (t := t) (.waiting job) rfl]
        exact hself.symm ▸ (h.max ▸ (h.balanced hne).create hnone)
      · refine h.waiting_update rfl (exists_update _) fun job' e => ?_
        cases e
        exact ⟨hne, s.crc.maxRequests, Function.update_self ..⟩
  | @acquire job permits hpc hp hpos =>
    obtain ⟨hne, _⟩ := h.waiting t job hpc
    have hfree : s.permit t = none := by
      rw [Server.permit, hpc]
      rfl
    refine ⟨h.max, fun _ => ?_, ?_⟩
    · rw [permit_update _ rfl]
      exact (h.balanced hne).acquire ht hp hpos hfree
    · exact h.waiting_update rfl (exists_update _) fun _ e => by cases e
  | @respond failsAfter job hpc =>
    have hpermit := (streamResponse_permit cfg s.cache job failsAfter).1
    refine h.move rfl rfl hpc hpermit fun job' e => ?_
    rw [e] at hpermit
    cases hpermit
  | @read hs failsAfter job file object hpc =>
    have hpermit := (streamObject_permit cfg hs job file object failsAfter).1
    refine h.move rfl rfl hpc hpermit fun job' e => ?_
    rw [e] at hpermit
    cases hpermit
  | put hpc => exact h.move rfl rfl hpc rfl fun _ e => by cases e
  | unlimitedRelease hpc hmax => exact h.move_unlimited hmax rfl rfl fun _ e => by cases e
  | @release job outcome permits hpc hmax hp =>
    have hne : cfg.maxRequestsPerUser ≠ 0 := h.max ▸ hmax
    have hholds : s.permit t = some job.name := by
      rw [Server.permit, hpc]
      rfl
    refine ⟨h.max, fun _ => ?_, ?_⟩
    · rw [permit_update (s := s) (t := t) .outside rfl]
      exact (h.balanced hne).release ht hp hholds
    · exact h.waiting_update rfl (exists_update _) fun _ e => by cases e
  | reloadBusy hpc hlock => exact h
  | reload hpc hlock => exact h.move rfl rfl hpc rfl fun _ e => by cases e
  | readFails hpc hn hlines => exact h.move rfl rfl hpc rfl fun _ e => by cases e
  | readFile hpc hn hlines => exact h.move rfl rfl hpc rfl fun _ e => by cases e
  | publish hpc hn => exact h.move rfl rfl hpc rfl fun _ e => by cases e
  | unlock hpc => exact h.move rfl rfl hpc rfl fun _ e => by cases e

theorem permitted_run (h : (serverMachine cfg root).run tr = some s) : Permitted cfg s := by
  refine (serverMachine cfg root).reachable_induction (permitted_start cfg root) ?_ s ⟨tr, h⟩
  intro s a s' _ hs hstep
  rcases serverStep_cases hstep with ⟨t, ht, _, hstep⟩ | ⟨key, _, rfl⟩
  · exact hstep.permitted ht hs
  · exact ⟨hs.max, hs.balanced, hs.waiting⟩

/-- `getCounts` reports the requests that have a permit. -/
theorem Permitted.getCounts (h : Permitted cfg s) (hmax : cfg.maxRequestsPerUser ≠ 0)
    (name : JString) : s.crc.getCounts name =
      if 0 < s.running cfg name then some (s.running cfg name : Int) else none := by
  have hle : s.running cfg name ≤ cfg.maxRequestsPerUser.toNat := (h.balanced hmax).le name
  unfold ConcurrentRequestCount.getCounts
  rw [h.max]
  cases hp : s.crc.user name with
  | none =>
    have hnone : s.running cfg name = 0 := (h.balanced hmax).absent name hp
    rw [hnone, if_neg (Nat.lt_irrefl 0)]
    exact ite_self none
  | some permits =>
    have hsum : permits + s.running cfg name = cfg.maxRequestsPerUser :=
      (h.balanced hmax).sum name permits hp
    have hcount : cfg.maxRequestsPerUser - permits = s.running cfg name := by omega
    rw [Option.bind_some, hcount]
    by_cases hrunning : 0 < s.running cfg name
    · rw [if_pos (by omega), if_pos (by omega), if_pos hrunning]
    · rw [if_neg hrunning, if_neg (show ¬ (0 : Int) < s.running cfg name by omega)]
      exact ite_self none

/-- A thread waits for a permit as long as its user has the most requests that are allowed. -/
theorem Permitted.acquire_eq_none (h : Permitted cfg s) (ht : t < cfg.nrThreads) {job : Job}
    (hpc : s.thread t = .waiting job) : serverStep cfg s (.acquire t) = none ↔
      s.running cfg job.name = cfg.maxRequestsPerUser.toNat := by
  obtain ⟨hmax, permits, hp⟩ := h.waiting t job hpc
  have hsum : permits + s.running cfg job.name = cfg.maxRequestsPerUser :=
    (h.balanced hmax).sum _ _ hp
  have hle : s.running cfg job.name ≤ cfg.maxRequestsPerUser.toNat := (h.balanced hmax).le _
  have hstep : serverStep cfg s (.acquire t) = none ↔ ¬ 0 < permits := by
    simp only [serverStep, Action.thread?, if_pos ht, threadStep, hpc, Option.map_eq_none_iff,
      ConcurrentRequestCount.acquireUninterruptibly, hp, ite_eq_right_iff, reduceCtorEq, imp_false]
  rw [hstep]
  omega

/-- **A user never has more requests under way than the limit.**  The semaphores count the
requests of every user exactly; a thread waits if and only if its own user has as many as are
allowed; and without a limit no thread ever waits. -/
theorem requests_limited (cfg : ServerConfig) (root : VirtualDirectory) {tr : List Action}
    {s : Server} (h : (serverMachine cfg root).run tr = some s) :
    (cfg.maxRequestsPerUser ≠ 0 → ∀ name,
      s.running cfg name ≤ cfg.maxRequestsPerUser.toNat ∧
      (∀ permits, s.crc.user name = some permits →
        permits = cfg.maxRequestsPerUser - s.running cfg name) ∧
      s.crc.getCounts name =
        if 0 < s.running cfg name then some (s.running cfg name : Int) else none) ∧
    ∀ t < cfg.nrThreads, ∀ job, s.thread t = .waiting job →
      cfg.maxRequestsPerUser ≠ 0 ∧ (serverStep cfg s (.acquire t) = none ↔
        s.running cfg job.name = cfg.maxRequestsPerUser.toNat) := by
  have hs := permitted_run h
  constructor
  · intro hmax name
    refine ⟨(hs.balanced hmax).le name, fun permits hp => ?_, hs.getCounts hmax name⟩
    have hsum : permits + s.running cfg name = cfg.maxRequestsPerUser :=
      (hs.balanced hmax).sum name permits hp
    omega
  · exact fun t ht job hpc => ⟨(hs.waiting t job hpc).1, hs.acquire_eq_none ht hpc⟩

/-- A server with two threads, which allows one request of a user. -/
def smallConfig : ServerConfig :=
  { nrConfigs := 0, maxRequestsPerUser := 1, maxHdf5NameLength := 0, bufferSize := 2
    maxCachedResponseSize := 10, hdfstream := true
    metadata := fun _ => { description := none, labels := none }
    malformed := fun _ => [], libraryMessage := fun _ => [], nrThreads := 2 }

/-- A request for the listing of the root. -/
def listRoot : Call :=
  { identifier := some (lit "a"), inRole := fun _ => false
    request := .doGet { pathInfo := none, object := none, maxDepth := none, dataSizeLimit := none
                        slice := none } }

/-- One request has a permit, another one of the same user has come to the semaphore. -/
def twoRequests : List Action :=
  [.request 0 listRoot, .construct 0, .computeIfAbsent 0, .acquire 0, .request 1 listRoot,
    .construct 1, .computeIfAbsent 1]

theorem requests_limited_two : ∃ s, (serverMachine smallConfig newRoot).run twoRequests = some s ∧
    s.running smallConfig (lit "a") ≤ 1 ∧ ∀ job, s.thread 1 = .waiting job →
      (serverStep smallConfig s (.acquire 1) = none ↔ s.running smallConfig job.name = 1) := by
  obtain ⟨s, hs⟩ := Option.isSome_iff_exists.mp (by decide +kernel :
    ((serverMachine smallConfig newRoot).run twoRequests).isSome = true)
  obtain ⟨hlimit, hwait⟩ := requests_limited smallConfig newRoot hs
  exact ⟨s, hs, (hlimit (by decide) (lit "a")).1, fun job hjob => (hwait 1 (by decide) job hjob).2⟩

/-! ## 3. Progress -/

/-- A step of a thread moves no other thread. -/
theorem ThreadStep.thread_eq (h : ThreadStep cfg s t a s') :
    ∃ pc, s'.thread = Function.update s.thread t pc := by
  cases h
  case reloadBusy => exact ⟨s.thread t, (Function.update_eq_self t s.thread).symm⟩
  all_goals exact ⟨_, rfl⟩

/-- A thread with a permit comes closer to its end with every step. -/
theorem ThreadStep.stepsLeft_lt (h : ThreadStep cfg s t a s') (hpermit : s.permit t ≠ none) :
    s'.thread t = .outside ∨
      s'.permit t ≠ none ∧ (s'.thread t).stepsLeft < (s.thread t).stepsLeft := by
  have hnot : ∀ {pc : ThreadPc}, s.thread t = pc → pc.permit = none → False := by
    intro pc hpc hnone
    rw [Server.permit, hpc] at hpermit
    exact hpermit hnone
  cases h with
  | request call hpc => exact (hnot hpc rfl).elim
  | refuse hpc hr => exact (hnot hpc rfl).elim
  | construct hpc hr => exact (hnot hpc rfl).elim
  | unlimited hpc hmax => exact (hnot hpc rfl).elim
  | computeIfAbsent hpc hmax => exact (hnot hpc rfl).elim
  | acquire hpc hp hpos => exact (hnot hpc rfl).elim
  | @respond failsAfter job hpc =>
    obtain ⟨hkeeps, hle⟩ := streamResponse_permit cfg s.cache job failsAfter
    refine .inr ⟨?_, ?_⟩
    · rw [Server.permit, Server.setThread_thread, Function.update_self, hkeeps]
      exact fun e => by cases e
    · rw [Server.setThread_thread, Function.update_self, hpc]
      exact Nat.lt_succ_of_le hle
  | @read hs failsAfter job file object hpc =>
    obtain ⟨hkeeps, hle⟩ := streamObject_permit cfg hs job file object failsAfter
    refine .inr ⟨?_, ?_⟩
    · rw [Server.permit, Server.setThread_thread, Function.update_self, hkeeps]
      exact fun e => by cases e
    · rw [Server.setThread_thread, Function.update_self, hpc]
      exact Nat.lt_succ_of_le hle
  | put hpc =>
    refine .inr ⟨?_, ?_⟩
    · rw [Server.permit, Server.setThread_thread, Function.update_self]
      exact fun e => by cases e
    · rw [Server.setThread_thread, Function.update_self, hpc]
      exact Nat.lt_succ_self 1
  | unlimitedRelease hpc hmax => exact .inl (Function.update_self ..)
  | release hpc hmax hp => exact .inl (Function.update_self ..)
  | reloadBusy hpc hlock => exact (hnot hpc rfl).elim
  | reload hpc hlock => exact (hnot hpc rfl).elim
  | readFails hpc hn hlines => exact (hnot hpc rfl).elim
  | readFile hpc hn hlines => exact (hnot hpc rfl).elim
  | publish hpc hn => exact (hnot hpc rfl).elim
  | unlock hpc => exact (hnot hpc rfl).elim

/-- A thread with a permit is not held up, whatever the library returns. -/
theorem Permitted.enabled (h : Permitted cfg s) (ht : t < cfg.nrThreads)
    (hpermit : s.permit t ≠ none) (hs : HDFStreamCalls) (failsAfter : Option Nat) :
    ∃ a ∈ [Action.respond t failsAfter, .read t hs failsAfter, .put t, .release t],
      (serverStep cfg s a).isSome := by
  rw [Server.permit] at hpermit
  cases hpc : s.thread t with
  | respond job =>
    refine ⟨.respond t failsAfter, List.mem_cons_self, ?_⟩
    simp only [serverStep, Action.thread?, if_pos ht, threadStep, hpc, Option.isSome_some]
  | read job file object =>
    refine ⟨.read t hs failsAfter, by simp, ?_⟩
    simp only [serverStep, Action.thread?, if_pos ht, threadStep, hpc, Option.isSome_some]
  | put job key data sent =>
    refine ⟨.put t, by simp, ?_⟩
    simp only [serverStep, Action.thread?, if_pos ht, threadStep, hpc, Option.isSome_some]
  | release job outcome =>
    refine ⟨.release t, by simp, ?_⟩
    simp only [serverStep, Action.thread?, if_pos ht, threadStep, hpc, Option.isSome_map,
      ConcurrentRequestCount.release, h.max]
    split
    · rfl
    · rename_i hmax
      -- the permit is one of a semaphore that is there
      obtain ⟨permits, hp⟩ := (h.balanced hmax).exists_permits (k := job.name) ht (by
        rw [Server.permit, hpc]
        rfl)
      rw [hp]
      rfl
  | _ =>
    rw [hpc] at hpermit
    exact absurd rfl hpermit

/-- The steps of a thread in a run. -/
def ownSteps (t : Nat) (tr : List Action) : Nat := tr.countP fun a => a.thread? = some t

theorem ownSteps_cons (t : Nat) (a : Action) (tr : List Action) :
    ownSteps t (a :: tr) = ownSteps t tr + if a.thread? = some t then 1 else 0 := by
  rw [ownSteps, ownSteps, List.countP_cons]
  simp only [decide_eq_true_eq]

theorem ThreadPc.stepsLeft_pos {pc : ThreadPc} (h : pc.permit ≠ none) : 0 < pc.stepsLeft := by
  cases pc
  case respond => exact Nat.zero_lt_succ 3
  case read => exact Nat.zero_lt_succ 2
  case put => exact Nat.zero_lt_succ 1
  case release => exact Nat.zero_lt_one
  all_goals exact absurd rfl h

theorem ThreadPc.stepsLeft_le (pc : ThreadPc) : pc.stepsLeft ≤ 4 := by
  cases pc <;> simp only [ThreadPc.stepsLeft] <;> omega

/-- A thread with a permit ends its request after `stepsLeft` of its own steps. -/
theorem ends_of_ownSteps (hpermit : s.permit t ≠ none)
    (hrun : (serverMachine cfg root).runFrom s tr = some s')
    (hsteps : (s.thread t).stepsLeft ≤ ownSteps t tr) :
    ∃ tr₁ tr₂ s₁, tr = tr₁ ++ tr₂ ∧ (serverMachine cfg root).runFrom s tr₁ = some s₁ ∧
      s₁.thread t = .outside := by
  have hpos := ThreadPc.stepsLeft_pos hpermit
  induction tr generalizing s with
  | nil => exact absurd hsteps (Nat.not_le_of_lt hpos)
  | cons a tr ih =>
    rw [Machine.runFrom_cons, Option.bind_eq_some_iff] at hrun
    obtain ⟨s₁, hstep, hrun⟩ := hrun
    -- the rest of the run starts in `s₁`
    have hlater : s₁.permit t ≠ none → (s₁.thread t).stepsLeft ≤ ownSteps t tr →
        ∃ tr₁ tr₂ s₂, a :: tr = tr₁ ++ tr₂ ∧
          (serverMachine cfg root).runFrom s tr₁ = some s₂ ∧ s₂.thread t = .outside := by
      intro hpermit₁ hsteps₁
      obtain ⟨tr₁, tr₂, s₂, rfl, hs₂, hout⟩ :=
        ih hpermit₁ hrun hsteps₁ (ThreadPc.stepsLeft_pos hpermit₁)
      refine ⟨a :: tr₁, tr₂, s₂, rfl, ?_, hout⟩
      rw [Machine.runFrom_cons, hstep]
      exact hs₂
    rcases serverStep_cases hstep with ⟨u, hu, hthread, hmove⟩ | ⟨key, rfl, rfl⟩
    · by_cases htu : u = t
      · subst htu
        have hown : ownSteps u (a :: tr) = ownSteps u tr + 1 := by
          rw [ownSteps_cons, if_pos hthread]
        rcases hmove.stepsLeft_lt hpermit with hout | ⟨hpermit₁, hlt⟩
        · refine ⟨[a], tr, s₁, rfl, ?_, hout⟩
          rw [Machine.runFrom_cons, hstep]
          rfl
        · exact hlater hpermit₁ (by omega)
      · have hown : ownSteps t (a :: tr) = ownSteps t tr := by
          rw [ownSteps_cons, hthread, if_neg fun e => htu (Option.some.inj e), Nat.add_zero]
        obtain ⟨pc, hpc⟩ := hmove.thread_eq
        have hsame : s₁.thread t = s.thread t := by
          rw [hpc, Function.update_of_ne (Ne.symm htu)]
        refine hlater ?_ ?_
        · rw [Server.permit, hsame]
          exact hpermit
        · rw [hsame, ← hown]
          exact hsteps
    · exact hlater hpermit hsteps

/-- **A permit is given back.**  In every state a run reaches, a thread with a permit can take a
step, whatever the library returns and whether or not the client still reads; and in every run
that goes on from there and has four steps of this thread, its request has ended. -/
theorem permit_released (cfg : ServerConfig) (root : VirtualDirectory) {tr : List Action}
    {s : Server} (h : (serverMachine cfg root).run tr = some s) {t : Nat} (ht : t < cfg.nrThreads)
    (hpermit : s.permit t ≠ none) :
    (∀ hs failsAfter, ∃ a ∈ [Action.respond t failsAfter, .read t hs failsAfter, .put t,
      .release t], (serverStep cfg s a).isSome) ∧
    ∀ tr' s', (serverMachine cfg root).runFrom s tr' = some s' → 4 ≤ ownSteps t tr' →
      ∃ tr₁ tr₂ s₁, tr' = tr₁ ++ tr₂ ∧ (serverMachine cfg root).runFrom s tr₁ = some s₁ ∧
        s₁.thread t = .outside := by
  refine ⟨(permitted_run h).enabled ht hpermit, fun tr' s' hrun hsteps => ?_⟩
  exact ends_of_ownSteps hpermit hrun (le_trans (s.thread t).stepsLeft_le hsteps)

theorem permit_released_two : ∃ s, (serverMachine smallConfig newRoot).run twoRequests = some s ∧
    ∀ failsAfter, ∃ a ∈ [Action.respond 0 failsAfter, .read 0 smallCalls failsAfter, .put 0,
      .release 0], (serverStep smallConfig s a).isSome := by
  obtain ⟨s, hs, hpermit⟩ := Option.map_eq_some_iff.mp (by decide +kernel :
    ((serverMachine smallConfig newRoot).run twoRequests).map (fun s => s.permit 0) =
      some (some (lit "a")))
  have hsome : s.permit 0 ≠ none := by
    rw [hpermit]
    exact fun e => by cases e
  exact ⟨s, hs, (permit_released smallConfig newRoot hs (by decide) hsome).1 smallCalls⟩

end HdfStream.Webapp
