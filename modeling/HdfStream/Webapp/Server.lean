/-
# The server

The threads of the web application: requests to `HDFStreamServlet`, which go through
`ConcurrentRequestCount` and the cache of responses, and calls of `ExternalConfigManager.reload`.
One step is one access to what they share, or what a thread does between two of these:

* `root`, read once in every request and replaced by a reload that has read all files;
* the lock of the reload;
* the semaphores of the users;
* `request_cache`, which may drop an entry at any time.

The Java runtime decides what the native library returns, what the files of the configuration hold
when they are read, and when writing to a client fails; these are parts of an `Action`.  `log` has
the requests that have ended.  No step reads it.
-/
import HdfStream.Lib.Machine
import HdfStream.Lib.Permits
import HdfStream.Virtual.Listing
import HdfStream.Webapp.ResponseCache

namespace HdfStream.Webapp

open Java Msgpack Virtual

/-! ## 1. What the threads share -/

/-- `ConcurrentRequestCount`: the available permits of the semaphores. -/
structure ConcurrentRequestCount where
  maxRequests : Int
  user : JString → Option Int

/-- The empty string stands for a user without a name. -/
def ConcurrentRequestCount.nameOf (username : Option JString) : JString := username.getD []

/-- `computeIfAbsent`. -/
def ConcurrentRequestCount.computeIfAbsent (crc : ConcurrentRequestCount) (name : JString) :
    ConcurrentRequestCount :=
  match crc.user name with
  | some _ => crc
  | none => { crc with user := Function.update crc.user name (some crc.maxRequests) }

/-- `acquireUninterruptibly` on the semaphore of a user; `none` if it blocks. -/
def ConcurrentRequestCount.acquireUninterruptibly (crc : ConcurrentRequestCount)
    (name : JString) : Option ConcurrentRequestCount :=
  match crc.user name with
  | some permits =>
    if 0 < permits then
      some { crc with user := Function.update crc.user name (some (permits - 1)) }
    else none
  | none => none

/-- `release`; `none` if there is no semaphore. -/
def ConcurrentRequestCount.release (crc : ConcurrentRequestCount) (name : JString) :
    Option ConcurrentRequestCount :=
  if crc.maxRequests = 0 then some crc
  else
    (crc.user name).map fun permits =>
      { crc with user := Function.update crc.user name (some (permits + 1)) }

/-- `getCounts`. -/
def ConcurrentRequestCount.getCounts (crc : ConcurrentRequestCount) (name : JString) :
    Option Int :=
  if 0 < crc.maxRequests then
    (crc.user name).bind fun nrPermits =>
      if 0 < crc.maxRequests - nrPermits then some (crc.maxRequests - nrPermits) else none
  else none

/-- The attributes of the servlet context that do not change, and how many threads there are. -/
structure ServerConfig where
  /-- How many files `directory_config` names. -/
  nrConfigs : Nat
  maxRequestsPerUser : Int
  maxHdf5NameLength : Int
  bufferSize : Int
  maxCachedResponseSize : Int
  /-- The native library has started. -/
  hdfstream : Bool
  metadata : JString → DirectoryMetadata
  malformed : Bytes → JString
  libraryMessage : Thrown → JString
  nrThreads : Nat

/-! ## 2. Requests -/

/-- A request of one of the three methods. -/
inductive HttpRequest where
  | doGet (request : GetRequest)
  | doHead (request : GetRequest)
  | doPost (request : PostRequest)

/-- A request, with the user name or the address it comes from, and the roles of the user. -/
structure Call where
  identifier : Option JString
  inRole : JString → Bool
  request : HttpRequest

/-- The body of the response is written. -/
def Call.writeBody (call : Call) : Bool :=
  match call.request with
  | .doHead _ => false
  | _ => true

/-- The servlet context as this request sees it. -/
def Call.context (cfg : ServerConfig) (call : Call) (root : VirtualDirectory) : ServletContext :=
  { virtualDirectory := root
    inRole := call.inRole
    maxHdf5NameLength := cfg.maxHdf5NameLength
    malformed := cfg.malformed
    libraryMessage := cfg.libraryMessage }

/-- The request that is answered, or the error that is sent instead. -/
def Call.construct (cfg : ServerConfig) (call : Call) (root : VirtualDirectory) :
    Except Refusal HDFStreamRequest :=
  match call.request with
  | .doGet request | .doHead request => (call.context cfg root).doHeadOrGet request
  | .doPost request => (call.context cfg root).doPost request

/-- A request that has been constructed. -/
structure Job where
  call : Call
  root : VirtualDirectory
  hreq : HDFStreamRequest

/-- The name its permit is counted under. -/
def Job.name (job : Job) : JString := ConcurrentRequestCount.nameOf job.call.identifier

/-- What is sent: the calls of a packer, or bytes. -/
inductive Body where
  | tokens (calls : List (Token JString))
  | bytes (data : Bytes)

/-- Writing to the client fails after this many calls or bytes. -/
def Body.take (n : Nat) : Body → Body
  | .tokens calls => .tokens (calls.take n)
  | .bytes data => .bytes (data.take n)

/-- What ends a response early. -/
inductive Failure where
  /-- An exception of `streamResponse`; the message of an `HDFStreamRequestException` is sent after
  the part of the body that has been written. -/
  | stream (e : StreamError)
  /-- An `IOException` of the output. -/
  | output
  /-- A `NullPointerException`. -/
  | nullPointer

/-- How a request ends. -/
inductive Outcome where
  | refused (r : Refusal)
  /-- The whole response was sent; a HEAD request has no body. -/
  | complete (sent : Option Body)
  | broken (sent : Option Body) (failure : Failure)

/-- The body, or a part of it and an exception. -/
def sendBody (writeBody : Bool) (body : Body) (failsAfter : Option Nat) : Outcome :=
  if writeBody then
    match failsAfter with
    | none => .complete (some body)
    | some n => .broken (some (body.take n)) .output
  else .complete none

/-- What has been written when a copy has ended. -/
def sendCopied {α : Type} (copied : Copied α) (failsAfter : Option Nat) : Outcome :=
  match failsAfter with
  | some n => .broken (some (.bytes (copied.out.take n))) .output
  | none =>
    match copied.result with
    | .ok _ => .complete (some (.bytes copied.out))
    | .error e => .broken (some (.bytes copied.out)) (.stream e.rethrow)

/-- A request that has ended, and the configuration it was answered with. -/
structure Answer where
  call : Call
  root : VirtualDirectory
  outcome : Outcome

/-! ## 3. The state -/

/-- Control points of a thread. -/
inductive ThreadPc where
  /-- In no request and no reload. -/
  | outside
  /-- `getRoot()` has returned. -/
  | gotRoot (call : Call) (root : VirtualDirectory)
  /-- `crc.acquire`. -/
  | acquire (job : Job)
  /-- `acquireUninterruptibly` in `crc.acquire`. -/
  | waiting (job : Job)
  /-- `streamResponse`, with a permit. -/
  | respond (job : Job)
  /-- The call of the native library. -/
  | read (job : Job) (file : VirtualFile) (object : JString)
  /-- `request_cache.put`. -/
  | put (job : Job) (key : CacheKey) (data : Bytes) (sent : Outcome)
  /-- `crc.release` in the finally block. -/
  | release (job : Job) (outcome : Outcome)
  /-- `load`, with the lock, after so many files. -/
  | loading (vdir : VirtualDirectory) (nrRead : Nat)
  /-- `lock.unlock()`. -/
  | unlock

/-- The whole server. -/
structure Server where
  root : VirtualDirectory
  locked : Bool
  crc : ConcurrentRequestCount
  cache : RequestCache
  thread : Nat → ThreadPc
  log : List Answer

/-- Move one thread. -/
def Server.setThread (s : Server) (t : Nat) (pc : ThreadPc) : Server :=
  { s with thread := Function.update s.thread t pc }

@[simp] theorem Server.setThread_thread (s : Server) (t : Nat) (pc : ThreadPc) :
    (s.setThread t pc).thread = Function.update s.thread t pc := rfl

/-- A request has ended. -/
def Server.answer (s : Server) (call : Call) (root : VirtualDirectory) (outcome : Outcome) :
    Server :=
  { s with log := s.log ++ [{ call := call, root := root, outcome := outcome }] }

/-! ## 4. Steps -/

/-- `streamResponse`, up to the call of the native library. -/
def streamResponse (cfg : ServerConfig) (cache : RequestCache) (job : Job)
    (failsAfter : Option Nat) : ThreadPc :=
  match job.hreq.file with
  | none =>
    match job.hreq.directory with
    | some directory =>
      .release job (sendBody job.call.writeBody
        (.tokens (packDirectory cfg.metadata directory job.hreq.maxDepth job.call.inRole))
        failsAfter)
    | none => .release job (.broken none .nullPointer)
  | some file =>
    match job.hreq.object with
    | none => .release job (sendBody job.call.writeBody (.tokens (packFile file)) failsAfter)
    | some object =>
      if cfg.hdfstream then
        match job.hreq.sliceInfo with
        | some _ => .read job file object
        | none =>
          match cache (job.hreq.cacheKey file object) with
          | some cachedData =>
            .release job (sendBody job.call.writeBody (.bytes cachedData) failsAfter)
          | none => .read job file object
      else
        .release job (.broken none (.stream (.request
          ⟨scInternalServerError, lit "Hdfstream library initialization failed"⟩)))

/-- The rest of `streamObject`: the stream is opened, copied and closed. -/
def streamObject (cfg : ServerConfig) (hs : HDFStreamCalls) (job : Job) (file : VirtualFile)
    (object : JString) (failsAfter : Option Nat) : ThreadPc :=
  match job.hreq.sliceInfo with
  | some slice =>
    match hs.openDatasetSlices file.filesystemPath object slice cfg.bufferSize with
    | .error message =>
      .release job (.broken none (.stream (.request ⟨scNotFound, message⟩)))
    | .ok stream =>
      if job.call.writeBody then .release job (sendCopied (copyStream stream) failsAfter)
      else .release job (.complete none)
  | none =>
    let key := job.hreq.cacheKey file object
    match hs.openObject key.path key.object key.maxDepth cfg.bufferSize key.dataSizeLimit with
    | .error message =>
      .release job (.broken none (.stream (.request ⟨scNotFound, message⟩)))
    | .ok stream =>
      if job.call.writeBody then
        let copied := copyStreamAndReturnIfSmall stream cfg.maxCachedResponseSize
        match copied.result, failsAfter with
        | .ok (some data), none => .put job key data (sendCopied copied none)
        | _, _ => .release job (sendCopied copied failsAfter)
      else .release job (.complete none)

/-- What may happen next.  `t` is the thread that moves. -/
inductive Action where
  /-- A request arrives, and `getRoot()` returns. -/
  | request (t : Nat) (call : Call)
  | construct (t : Nat)
  | computeIfAbsent (t : Nat)
  | acquire (t : Nat)
  | respond (t : Nat) (failsAfter : Option Nat)
  | read (t : Nat) (hs : HDFStreamCalls) (failsAfter : Option Nat)
  | put (t : Nat)
  | release (t : Nat)
  /-- `reload` is called. -/
  | reload (t : Nat)
  /-- The next file of the configuration is read, or cannot be read. -/
  | readFile (t : Nat) (lines : Option (List JString))
  /-- `root = vdir`. -/
  | publish (t : Nat)
  | unlock (t : Nat)
  /-- The cache drops an entry. -/
  | evict (key : CacheKey)

/-- A step of thread `t`. -/
def threadStep (cfg : ServerConfig) (s : Server) (t : Nat) : Action → Option Server
  | .request _ call =>
    match s.thread t with
    | .outside => some (s.setThread t (.gotRoot call s.root))
    | _ => none
  | .construct _ =>
    match s.thread t with
    | .gotRoot call root =>
      match call.construct cfg root with
      | .error r => some ((s.answer call root (.refused r)).setThread t .outside)
      | .ok hreq => some (s.setThread t (.acquire { call := call, root := root, hreq := hreq }))
    | _ => none
  | .computeIfAbsent _ =>
    match s.thread t with
    | .acquire job =>
      if s.crc.maxRequests = 0 then some (s.setThread t (.respond job))
      else some ({ s with crc := s.crc.computeIfAbsent job.name }.setThread t (.waiting job))
    | _ => none
  | .acquire _ =>
    match s.thread t with
    | .waiting job =>
      (s.crc.acquireUninterruptibly job.name).map fun crc =>
        { s with crc := crc }.setThread t (.respond job)
    | _ => none
  | .respond _ failsAfter =>
    match s.thread t with
    | .respond job => some (s.setThread t (streamResponse cfg s.cache job failsAfter))
    | _ => none
  | .read _ hs failsAfter =>
    match s.thread t with
    | .read job file object =>
      some (s.setThread t (streamObject cfg hs job file object failsAfter))
    | _ => none
  | .put _ =>
    match s.thread t with
    | .put job key data sent =>
      some ({ s with cache := s.cache.put key data }.setThread t (.release job sent))
    | _ => none
  | .release _ =>
    match s.thread t with
    | .release job outcome =>
      (s.crc.release job.name).map fun crc =>
        ({ s with crc := crc }.answer job.call job.root outcome).setThread t .outside
    | _ => none
  | .reload _ =>
    match s.thread t with
    | .outside =>
      -- without the lock the caller gets an exception
      if s.locked then some s else some ({ s with locked := true }.setThread t (.loading newRoot 0))
    | _ => none
  | .readFile _ lines =>
    match s.thread t with
    | .loading vdir nrRead =>
      if nrRead < cfg.nrConfigs then
        match lines with
        | none => some (s.setThread t .unlock)
        | some lines =>
          match addFromReader lines vdir with
          | .error _ => some (s.setThread t .unlock)
          | .ok vdir => some (s.setThread t (.loading vdir (nrRead + 1)))
      else none
    | _ => none
  | .publish _ =>
    match s.thread t with
    | .loading vdir nrRead =>
      if nrRead < cfg.nrConfigs then none
      else some ({ s with root := vdir }.setThread t .unlock)
    | _ => none
  | .unlock _ =>
    match s.thread t with
    | .unlock => some ({ s with locked := false }.setThread t .outside)
    | _ => none
  | .evict _ => none

/-- The thread an action belongs to. -/
def Action.thread? : Action → Option Nat
  | .request t _ | .construct t | .computeIfAbsent t | .acquire t | .respond t _ | .read t _ _
  | .put t | .release t | .reload t | .readFile t _ | .publish t | .unlock t => some t
  | .evict _ => none

/-- The step function. -/
def serverStep (cfg : ServerConfig) (s : Server) (a : Action) : Option Server :=
  match a.thread? with
  | some t => if t < cfg.nrThreads then threadStep cfg s t a else none
  | none =>
    match a with
    | .evict key =>
      some { s with cache := fun key' => if key' = key then none else s.cache key' }
    | _ => none

/-- The server starts with a configuration that was loaded. -/
def Server.start (cfg : ServerConfig) (root : VirtualDirectory) : Server where
  root := root
  locked := false
  crc := { maxRequests := cfg.maxRequestsPerUser, user := fun _ => none }
  cache := emptyCache
  thread := fun _ => .outside
  log := []

/-- One server. -/
def serverMachine (cfg : ServerConfig) (root : VirtualDirectory) : Machine Server Action where
  init := Server.start cfg root
  exec := serverStep cfg

end HdfStream.Webapp
