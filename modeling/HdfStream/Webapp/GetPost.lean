/-
# GET and POST

The same parameters can come as strings in a GET request and as a MessagePack map in a POST
request.  `getPost_agree_iff` says for which of them the two requests end the same way.  Three
kinds of parameters are treated differently:

* `doHeadOrGet` reads `data_size_limit` with `Integer.valueOf`, `doPost` as a `long`;
* `doPost` limits the length of the object name, in bytes, before the path is looked up;
* slices without dimensions do not have their number in the form `pack` writes.
-/
import HdfStream.Webapp.Request
import HdfStream.Webapp.SlicePack

namespace HdfStream.Webapp

open Java Msgpack Virtual

/-! ## 1. The same parameters -/

/-- A value of type `int`. -/
def IsInt (n : Int) : Prop := -2147483648 ≤ n ∧ n < 2147483648

/-- A slice that agrees in all dimensions but the first, and a string for it. -/
structure SliceString where
  descriptor : JString
  slice : SliceInfo
  parse_eq : SliceInfo.parse descriptor = .ok slice
  agree : slice.Agree

/-- The parameters of a request. -/
structure Query where
  pathInfo : Option JString
  object : Option JString
  maxDepth : Int
  dataSizeLimit : Int
  slice : Option SliceString
  maxDepth_int : IsInt maxDepth
  dataSizeLimit_long : IsLong dataSizeLimit

/-- As a GET request. -/
def Query.get (q : Query) : GetRequest :=
  { pathInfo := q.pathInfo
    object := q.object
    maxDepth := some (decimal q.maxDepth)
    dataSizeLimit := some (decimal q.dataSizeLimit)
    slice := q.slice.map SliceString.descriptor }

/-- One parameter. -/
inductive Parameter where
  | object (object : JString)
  | maxDepth (maxDepth : Int)
  | dataSizeLimit (dataSizeLimit : Int)
  | slice (slice : SliceInfo)
deriving DecidableEq

def Parameter.name : Parameter → JString
  | .object _ => lit "object"
  | .maxDepth _ => lit "max_depth"
  | .dataSizeLimit _ => lit "data_size_limit"
  | .slice _ => lit "slice"

/-- The calls of a packer that write the value. -/
def Parameter.pack : Parameter → List (Token Bytes)
  | .object o => [.str (utf8 o)]
  | .maxDepth n => [.int n]
  | .dataSizeLimit n => [.int n]
  | .slice s => s.pack

/-- The entries of a map, without its header. -/
def packEntries (params : List Parameter) : List (Token Bytes) :=
  params.flatMap fun param => .str (utf8 param.name) :: param.pack

/-- The parameters that are given. -/
def Query.params (q : Query) : List Parameter :=
  (q.object.map Parameter.object).toList ++ [.maxDepth q.maxDepth, .dataSizeLimit q.dataSizeLimit]
    ++
    (q.slice.map fun s => .slice s.slice).toList

/-- As a POST request, with the parameters in the order of `params`. -/
def Query.post (q : Query) (params : List Parameter) : PostRequest :=
  { pathInfo := q.pathInfo
    contentType := some (lit "application/x-msgpack")
    body := .mapHeader params.length :: packEntries params }

/-- Both refused with the same status, or the same request. -/
def SameAnswer : Except Refusal HDFStreamRequest → Except Refusal HDFStreamRequest → Prop
  | .error e, .error e' => e.statusCode = e'.statusCode
  | .ok hreq, .ok hreq' => hreq = hreq'
  | _, _ => False

/-! ## 2. The constructor -/

variable (context : ServletContext)

/-- The path or one of the limits is refused. -/
def Query.Early (q : Query) : Prop :=
  (∃ p ∈ pathOf q.pathInfo, tooLong context.maxHdf5NameLength p) ∨ q.maxDepth < 0 ∨
    q.dataSizeLimit < 0

/-- The path is not found. -/
def Query.Unresolved (q : Query) : Prop :=
  ((pathOf q.pathInfo).getD []).length ≠ 0 ∧
    (resolvePath ((pathOf q.pathInfo).getD []) context.inRole context.virtualDirectory).toOption =
      none

/-- The object name or the slice is refused. -/
def Query.Late (q : Query) : Prop :=
  (∃ o ∈ q.object, tooLong context.maxHdf5NameLength o ∨ isPrintableAscii o = false) ∨
    (q.slice.isSome ∧ q.object = none)

/-- The object name is longer than a POST request may have it. -/
def Query.LongName (q : Query) : Prop :=
  ∃ o ∈ q.object, context.maxHdf5NameLength < (utf8 o).length

/-- Several slices without dimensions. -/
def Query.DroppedSlices (q : Query) : Prop :=
  ∃ s ∈ q.slice, s.slice.rank = 0 ∧ s.slice.nrSlices ≠ 1

/-- The parameters for which GET and POST end the same way. -/
def Query.Agrees (q : Query) : Prop :=
  q.Early context ∨
    (q.dataSizeLimit < 2147483648 ∧ ¬ (q.LongName context ∧ q.Unresolved context) ∧
      (q.Unresolved context ∨ q.Late context ∨ ¬ q.DroppedSlices)) ∨
    (2147483648 ≤ q.dataSizeLimit ∧
      (q.LongName context ∨ (¬ q.Unresolved context ∧ q.Late context)))

variable {context} {q : Query}

/-- The call of the constructor. -/
def Query.construct (context : ServletContext) (q : Query) (slice : Option SliceInfo) :
    Except Refusal HDFStreamRequest :=
  context.construct q.pathInfo q.object q.maxDepth q.dataSizeLimit slice

/-- The response is an error with this status. -/
def Refused (statusCode : Nat) (r : Except Refusal HDFStreamRequest) : Prop :=
  ∃ message, r = .error (.sent statusCode message)

theorem construct_early (h : q.Early context) (slice : Option SliceInfo) :
    Refused scBadRequest (q.construct context slice) := by
  have hlimits : ∃ message, checkLimits (pathOf q.pathInfo) q.maxDepth q.dataSizeLimit
      context.maxHdf5NameLength = .error ⟨scBadRequest, message⟩ := by
    unfold checkLimits
    by_cases hpath : ∃ p ∈ pathOf q.pathInfo, tooLong context.maxHdf5NameLength p
    · exact ⟨_, if_pos hpath⟩
    rw [if_neg hpath]
    by_cases hdepth : q.maxDepth < 0
    · exact ⟨_, if_pos hdepth⟩
    rw [if_neg hdepth]
    rcases h with h | h | h
    · exact absurd h hpath
    · exact absurd h hdepth
    · exact ⟨_, if_pos h⟩
  obtain ⟨message, hlimits⟩ := hlimits
  refine ⟨message, ?_⟩
  rw [Query.construct, ServletContext.construct, HDFStreamRequest.new, hlimits]
  rfl

theorem checkLimits_ok (h : ¬ q.Early context) :
    checkLimits (pathOf q.pathInfo) q.maxDepth q.dataSizeLimit context.maxHdf5NameLength =
      .ok () := by
  unfold Query.Early at h
  rw [checkLimits, if_neg (fun hp => h (.inl hp)), if_neg (fun hd => h (.inr (.inl hd))),
    if_neg (fun hl => h (.inr (.inr hl)))]

theorem construct_unresolved (hearly : ¬ q.Early context) (h : q.Unresolved context)
    (slice : Option SliceInfo) : Refused scNotFound (q.construct context slice) := by
  obtain ⟨hpath, hresolve⟩ := h
  have hlook : lookUp context.virtualDirectory context.inRole (pathOf q.pathInfo) =
      .error ⟨scNotFound, lit "Invalid path specified: " ++ (pathOf q.pathInfo).getD []⟩ := by
    rw [lookUp, if_neg hpath]
    cases hr : resolvePath ((pathOf q.pathInfo).getD []) context.inRole context.virtualDirectory
      with
    | error e => rfl
    | ok info =>
      rw [hr] at hresolve
      cases hresolve
  refine ⟨lit "Invalid path specified: " ++ (pathOf q.pathInfo).getD [], ?_⟩
  rw [Query.construct, ServletContext.construct, HDFStreamRequest.new, checkLimits_ok hearly, hlook]
  rfl

/-- A path that is found. -/
theorem lookUp_ok (h : ¬ q.Unresolved context) :
    ∃ target, lookUp context.virtualDirectory context.inRole (pathOf q.pathInfo) = .ok target := by
  unfold Query.Unresolved at h
  unfold lookUp
  by_cases hpath : ((pathOf q.pathInfo).getD []).length = 0
  · exact ⟨_, if_pos hpath⟩
  · rw [if_neg hpath]
    cases hr : resolvePath ((pathOf q.pathInfo).getD []) context.inRole context.virtualDirectory
      with
    | error e =>
      refine absurd ⟨hpath, ?_⟩ h
      rw [hr]
      rfl
    | ok info => exact ⟨_, rfl⟩

theorem construct_late (hearly : ¬ q.Early context) (hpath : ¬ q.Unresolved context)
    (h : q.Late context) {slice : Option SliceInfo} (hslice : slice.isSome = q.slice.isSome) :
    Refused scBadRequest (q.construct context slice) := by
  obtain ⟨target, hlook⟩ := lookUp_ok hpath
  have hobject : ∃ message, checkObject q.object slice context.maxHdf5NameLength =
      .error ⟨scBadRequest, message⟩ := by
    unfold checkObject
    by_cases hlong : ∃ o ∈ q.object, tooLong context.maxHdf5NameLength o
    · exact ⟨_, if_pos hlong⟩
    rw [if_neg hlong]
    by_cases hascii : ∃ o ∈ q.object, isPrintableAscii o = false
    · exact ⟨_, if_pos hascii⟩
    rw [if_neg hascii, hslice]
    rcases h with ⟨o, ho, h | h⟩ | h
    · exact absurd ⟨o, ho, h⟩ hlong
    · exact absurd ⟨o, ho, h⟩ hascii
    · exact ⟨_, if_pos h⟩
  obtain ⟨message, hobject⟩ := hobject
  refine ⟨message, ?_⟩
  rw [Query.construct, ServletContext.construct, HDFStreamRequest.new, checkLimits_ok hearly, hlook]
  simp only [bind, Except.bind]
  rw [hobject]

/-- The request for a path that is found. -/
theorem construct_ok (hearly : ¬ q.Early context) (hpath : ¬ q.Unresolved context)
    (hlate : ¬ q.Late context) :
    ∃ target : Option VirtualFile × Option VirtualDirectory,
      ∀ slice : Option SliceInfo, slice.isSome = q.slice.isSome →
        q.construct context slice = .ok
          { file := target.1, directory := target.2, object := q.object, maxDepth := q.maxDepth
            dataSizeLimit := q.dataSizeLimit, sliceInfo := slice } := by
  obtain ⟨target, hlook⟩ := lookUp_ok hpath
  refine ⟨target, fun slice hslice => ?_⟩
  have hobject : checkObject q.object slice context.maxHdf5NameLength = .ok () := by
    unfold Query.Late at hlate
    rw [checkObject, if_neg ?_, if_neg ?_, if_neg ?_]
    · rw [hslice]
      exact fun h => hlate (.inr h)
    · rintro ⟨o, ho, h⟩
      exact hlate (.inl ⟨o, ho, .inr h⟩)
    · rintro ⟨o, ho, h⟩
      exact hlate (.inl ⟨o, ho, .inl h⟩)
  rw [Query.construct, ServletContext.construct, HDFStreamRequest.new, checkLimits_ok hearly, hlook]
  simp only [bind, Except.bind]
  rw [hobject]

/-! ## 3. GET -/

theorem intParameter_decimal {n : Int} (h : IsInt n) (default : Int) (message : String) :
    intParameter (some (decimal n)) default message = .ok n := by
  have hvalue : valueOfInt (decimal n) = .ok (BitVec.ofInt 32 n) := by
    rw [valueOfInt, number_decimal]
    exact if_pos ⟨h.1, h.2⟩
  have hback : (BitVec.ofInt 32 n).toInt = n := by
    rw [BitVec.toInt_ofInt]
    exact Int.bmod_eq_of_le (by have := h.1; omega) (by have := h.2; omega)
  rw [intParameter, hvalue]
  exact congrArg Except.ok hback

theorem intParameter_refused {n : Int} (h : ¬ IsInt n) (default : Int) (message : String) :
    intParameter (some (decimal n)) default message = .error
      (.sent scBadRequest (lit message)) := by
  have hvalue : valueOfInt (decimal n) = .error (numberFormatMessage (decimal n)) := by
    rw [valueOfInt, number_decimal]
    exact if_neg h
  rw [intParameter, hvalue]

theorem sliceParameter_map (slice : Option SliceString) :
    sliceParameter (slice.map SliceString.descriptor) = .ok (slice.map SliceString.slice) := by
  rcases slice with _ | s
  · rfl
  · rw [Option.map_some, sliceParameter, s.parse_eq]
    rfl

/-- **A GET request** with a limit in the range of `int`. -/
theorem doHeadOrGet_eq (h : IsInt q.dataSizeLimit) :
    context.doHeadOrGet q.get = q.construct context (q.slice.map SliceString.slice) := by
  rw [ServletContext.doHeadOrGet, Query.get, intParameter_decimal q.maxDepth_int,
    intParameter_decimal h, sliceParameter_map]
  rfl

theorem doHeadOrGet_refused (h : ¬ IsInt q.dataSizeLimit) :
    Refused scBadRequest (context.doHeadOrGet q.get) := by
  rw [ServletContext.doHeadOrGet, Query.get, intParameter_decimal q.maxDepth_int,
    intParameter_refused h]
  exact ⟨_, rfl⟩

/-! ## 4. POST -/

/-- A parameter as it is read back. -/
def Parameter.put (params : Parameters) : Parameter → Parameters
  | .object o => { params with object := some o }
  | .maxDepth n => { params with maxDepth := n }
  | .dataSizeLimit n => { params with dataSizeLimit := n }
  | .slice s => { params with slice := some s.unpacked }

/-- A parameter that can be packed. -/
def Parameter.Packs : Parameter → Prop
  | .object _ => True
  | .maxDepth n => IsInt n
  | .dataSizeLimit n => IsLong n
  | .slice s => s.WellFormed ∧ s.Agree

/-- An object name that is too long for the decoder. -/
def Parameter.Long (maxHdf5NameLength : Int) : Parameter → Prop
  | .object o => maxHdf5NameLength < (utf8 o).length
  | _ => False

variable (malformed : Bytes → JString) (maxHdf5NameLength : Int)

theorem unpackRawString_cons (bytes : Bytes) (rest : List (Token Bytes)) :
    (unpackRawString : Unpack Bytes Thrown Bytes) (.str bytes :: rest) = .ok (bytes, rest) := rfl

/-- **A parameter is read back**, unless it is too long. -/
theorem unpackParameter_ok {param : Parameter} (h : param.Packs)
    (hlong : ¬ param.Long maxHdf5NameLength) (params : Parameters) (rest : List (Token Bytes)) :
    unpackParameter malformed maxHdf5NameLength param.name params (param.pack ++ rest) =
      .ok (.ok (param.put params), rest) := by
  cases param with
  | object o =>
    have hlimited : unpackLimitedString malformed maxHdf5NameLength (.str (utf8 o) :: rest) =
        .ok (o, rest) := by
      have hle : ¬ maxHdf5NameLength < (utf8 o).length := hlong
      rw [unpackLimitedString, bind_ok (unpackRawString_cons _ _), if_neg hle, ofUtf8_utf8]
      rfl
    have hname : (Parameter.object o).name = lit "object" := rfl
    rw [unpackParameter, if_pos hname]
    exact bind_ok hlimited
  | maxDepth n =>
    have hname : (Parameter.maxDepth n).name = lit "max_depth" := rfl
    rw [hname, unpackParameter, if_neg (by decide), if_pos (by decide)]
    exact bind_ok (unpackInt_cons h rest)
  | dataSizeLimit n =>
    have hname : (Parameter.dataSizeLimit n).name = lit "data_size_limit" := rfl
    rw [hname, unpackParameter, if_neg (by decide), if_neg (by decide), if_pos (by decide)]
    exact bind_ok (unpackLong_cons h rest)
  | slice s =>
    have hname : (Parameter.slice s).name = lit "slice" := rfl
    rw [hname, unpackParameter, if_neg (by decide), if_neg (by decide), if_neg (by decide),
      if_pos (by decide)]
    exact bind_ok (fromUnpacker_pack malformed h.1 h.2 rest)

theorem unpackParameter_long {param : Parameter} (h : param.Long maxHdf5NameLength)
    (params : Parameters) (rest : List (Token Bytes)) :
    ∃ e, unpackParameter malformed maxHdf5NameLength param.name params (param.pack ++ rest) =
      .error e := by
  cases param with
  | object o =>
    have hlimited : unpackLimitedString malformed maxHdf5NameLength (.str (utf8 o) :: rest) =
        .error (.io (lit "String exceeds allowed size: " ++ decimal (utf8 o).length ++
          lit " bytes")) := by
      have hlt : maxHdf5NameLength < (utf8 o).length := h
      rw [unpackLimitedString, bind_ok (unpackRawString_cons _ _), if_pos hlt]
      rfl
    have hname : (Parameter.object o).name = lit "object" := rfl
    rw [unpackParameter, if_pos hname]
    exact ⟨_, bind_error hlimited⟩
  | maxDepth n => exact h.elim
  | dataSizeLimit n => exact h.elim
  | slice s => exact h.elim

theorem unpackString_name (param : Parameter) (rest : List (Token Bytes)) :
    unpackString malformed (.str (utf8 param.name) :: rest) = .ok (param.name, rest) := by
  rw [unpackString, bind_ok (unpackRawString_cons _ _), ofUtf8_utf8]
  rfl

theorem fresh_cons {params : List Parameter} {name : JString} {names : List JString}
    (hname : name ∉ params.map Parameter.name) (hfresh : ∀ param ∈ params, param.name ∉ names) :
    ∀ param ∈ params, param.name ∉ name :: names := by
  intro param hparam hmem
  rcases List.mem_cons.mp hmem with heq | hmem
  · refine hname ?_
    rw [← heq]
    exact List.mem_map_of_mem hparam
  · exact hfresh param hparam hmem

/-- The entries, by induction on the map: no name was there before. -/
theorem unpackParameters_ok {params : List Parameter} (hpacks : ∀ param ∈ params, param.Packs)
    (hshort : ∀ param ∈ params, ¬ param.Long maxHdf5NameLength)
    (names : List JString) (hnames : (params.map Parameter.name).Nodup)
    (hfresh : ∀ param ∈ params, param.name ∉ names) (p : Parameters) (rest : List (Token Bytes)) :
    unpackParameters malformed maxHdf5NameLength params.length names p
        (packEntries params ++ rest) = .ok (.ok (params.foldl Parameter.put p), rest) := by
  induction params generalizing names p with
  | nil => rfl
  | cons param params ih =>
    rw [List.map_cons, List.nodup_cons] at hnames
    have hvalue := unpackParameter_ok malformed maxHdf5NameLength (hpacks param List.mem_cons_self)
      (hshort param List.mem_cons_self) p (packEntries params ++ rest)
    have hrest := ih (fun x hx => hpacks x (List.mem_cons_of_mem _ hx))
      (fun x hx => hshort x (List.mem_cons_of_mem _ hx)) (param.name :: names) hnames.2
      (fresh_cons hnames.1 fun x hx => hfresh x (List.mem_cons_of_mem _ hx)) (param.put p)
    rw [List.length_cons, unpackParameters, packEntries, List.flatMap_cons, List.append_assoc,
      List.cons_append, bind_ok (unpackString_name malformed param _),
      if_neg (hfresh param List.mem_cons_self)]
    exact (bind_ok hvalue).trans hrest

/-- A name that is too long ends the decoding. -/
theorem unpackParameters_long {params : List Parameter} (hpacks : ∀ param ∈ params, param.Packs)
    (hlong : ∃ param ∈ params, param.Long maxHdf5NameLength)
    (names : List JString) (hnames : (params.map Parameter.name).Nodup)
    (hfresh : ∀ param ∈ params, param.name ∉ names) (p : Parameters) (rest : List (Token Bytes)) :
    ∃ e, unpackParameters malformed maxHdf5NameLength params.length names p
        (packEntries params ++ rest) = .error e := by
  induction params generalizing names p with
  | nil =>
    obtain ⟨_, hmem, _⟩ := hlong
    cases hmem
  | cons param params ih =>
    rw [List.map_cons, List.nodup_cons] at hnames
    rw [List.length_cons, unpackParameters, packEntries, List.flatMap_cons, List.append_assoc,
      List.cons_append, bind_ok (unpackString_name malformed param _),
      if_neg (hfresh param List.mem_cons_self)]
    by_cases hthis : param.Long maxHdf5NameLength
    · obtain ⟨e, he⟩ := unpackParameter_long malformed maxHdf5NameLength hthis p
        (packEntries params ++ rest)
      exact ⟨e, bind_error he⟩
    · have hvalue := unpackParameter_ok malformed maxHdf5NameLength
        (hpacks param List.mem_cons_self) hthis p (packEntries params ++ rest)
      have hlater : ∃ x ∈ params, x.Long maxHdf5NameLength := by
        obtain ⟨x, hx, hxlong⟩ := hlong
        rcases List.mem_cons.mp hx with rfl | hx
        · exact absurd hxlong hthis
        · exact ⟨x, hx, hxlong⟩
      obtain ⟨e, he⟩ := ih (fun x hx => hpacks x (List.mem_cons_of_mem _ hx)) hlater
        (param.name :: names) hnames.2
        (fresh_cons hnames.1 fun x hx => hfresh x (List.mem_cons_of_mem _ hx)) (param.put p)
      exact ⟨e, (bind_ok hvalue).trans he⟩

/-! ## 5. All parameters -/

theorem Query.mem_params {q : Query} {param : Parameter} (h : param ∈ q.params) :
    (∃ o ∈ q.object, param = .object o) ∨ param = .maxDepth q.maxDepth ∨
      param = .dataSizeLimit q.dataSizeLimit ∨ ∃ s ∈ q.slice, param = .slice s.slice := by
  simp only [Query.params, List.mem_append, Option.mem_toList, Option.map_eq_some_iff,
    List.mem_cons, List.not_mem_nil, or_false] at h
  rcases h with (⟨o, ho, rfl⟩ | rfl | rfl) | ⟨s, hs, rfl⟩
  · exact .inl ⟨o, ho, rfl⟩
  · exact .inr (.inl rfl)
  · exact .inr (.inr (.inl rfl))
  · exact .inr (.inr (.inr ⟨s, hs, rfl⟩))

theorem SliceString.wellFormed (s : SliceString) : s.slice.WellFormed := by
  have h := parse_wellFormed s.descriptor
  rwa [s.parse_eq] at h

theorem Query.params_packs (q : Query) : ∀ param ∈ q.params, param.Packs := by
  intro param hparam
  rcases q.mem_params hparam with ⟨o, _, rfl⟩ | rfl | rfl | ⟨s, _, rfl⟩
  · trivial
  · exact q.maxDepth_int
  · exact q.dataSizeLimit_long
  · exact ⟨s.wellFormed, s.agree⟩

theorem Query.params_nodup (q : Query) : (q.params.map Parameter.name).Nodup := by
  unfold Query.params
  rcases q.object with _ | o
  · rcases q.slice with _ | s
    · exact (by decide : [lit "max_depth", lit "data_size_limit"].Nodup)
    · exact (by decide : [lit "max_depth", lit "data_size_limit", lit "slice"].Nodup)
  · rcases q.slice with _ | s
    · exact (by decide : [lit "object", lit "max_depth", lit "data_size_limit"].Nodup)
    · exact (by decide : [lit "object", lit "max_depth", lit "data_size_limit", lit "slice"].Nodup)

theorem Query.params_length (q : Query) : q.params.length ≤ 4 := by
  unfold Query.params
  rcases q.object with _ | o
  · rcases q.slice with _ | s
    · exact (by decide : 2 ≤ 4)
    · exact (by decide : 3 ≤ 4)
  · rcases q.slice with _ | s
    · exact (by decide : 3 ≤ 4)
    · exact Nat.le_refl 4

theorem Query.params_long {q : Query} (maxHdf5NameLength : Int) :
    (∃ param ∈ q.params, param.Long maxHdf5NameLength) ↔
      ∃ o ∈ q.object, maxHdf5NameLength < (utf8 o).length := by
  constructor
  · rintro ⟨param, hparam, hlong⟩
    rcases q.mem_params hparam with ⟨o, ho, rfl⟩ | rfl | rfl | ⟨s, _, rfl⟩
    · exact ⟨o, ho, hlong⟩
    · exact hlong.elim
    · exact hlong.elim
    · exact hlong.elim
  · rintro ⟨o, ho, hlong⟩
    refine ⟨.object o, ?_, hlong⟩
    rw [Query.params, Option.mem_def.mp ho]
    exact List.mem_append_left _ List.mem_cons_self

/-- Parameters with different names do not interfere. -/
theorem Parameter.put_comm {a b : Parameter} (h : a.name = b.name → a = b) (p : Parameters) :
    b.put (a.put p) = a.put (b.put p) := by
  cases a <;> cases b <;> first | rfl | (rw [h rfl])

/-- The parameters that are read back, whatever their order. -/
theorem Query.foldl_put (q : Query) {params : List Parameter} (h : params.Perm q.params) :
    params.foldl Parameter.put {} =
      { object := q.object, maxDepth := q.maxDepth, dataSizeLimit := q.dataSizeLimit
        slice := q.slice.map fun s => s.slice.unpacked } := by
  have hcomm : ∀ a ∈ params, ∀ b ∈ params, ∀ p : Parameters,
      b.put (a.put p) = a.put (b.put p) := by
    intro a ha b hb p
    have hinj := List.inj_on_of_nodup_map q.params_nodup
    exact Parameter.put_comm (fun heq => hinj (h.subset ha) (h.subset hb) heq) p
  rw [h.foldl_eq' hcomm]
  unfold Query.params
  rcases q.object with _ | o
  · rcases q.slice with _ | s
    · rfl
    · rfl
  · rcases q.slice with _ | s
    · rfl
    · rfl

/-- **A POST request** with a name that is short enough. -/
theorem doPost_eq {params : List Parameter} (h : params.Perm q.params)
    (hlong : ¬ q.LongName context) :
    context.doPost (q.post params) =
      q.construct context (q.slice.map fun s => s.slice.unpacked) := by
  have hlen : params.length ≤ 4 := h.length_eq ▸ q.params_length
  have hshort : ∀ param ∈ params, ¬ param.Long context.maxHdf5NameLength := by
    intro param hparam hp
    exact hlong ((q.params_long _).mp ⟨param, h.subset hparam, hp⟩)
  have hparams := unpackParameters_ok context.malformed context.maxHdf5NameLength
    (fun param hparam => q.params_packs param (h.subset hparam)) hshort []
    ((h.map Parameter.name).nodup_iff.mpr q.params_nodup) (fun _ _ => List.not_mem_nil) {} []
  have hbody : unpackBody context.malformed context.maxHdf5NameLength (q.post params).body =
      .ok (.ok (params.foldl Parameter.put {}), []) := by
    have hheader : (unpackMapHeader : Unpack Bytes Thrown Nat) (q.post params).body =
        .ok (params.length, packEntries params) := unpackMapHeader_cons (by omega) _
    rw [unpackBody, bind_ok hheader, if_neg (by omega), ← List.append_nil (packEntries params)]
    exact hparams
  rw [ServletContext.doPost, if_neg (fun hne => hne rfl), hbody, q.foldl_put h]
  rfl

theorem doPost_refused {params : List Parameter} (h : params.Perm q.params)
    (hlong : q.LongName context) : Refused scBadRequest (context.doPost (q.post params)) := by
  have hlen : params.length ≤ 4 := h.length_eq ▸ q.params_length
  have hexists : ∃ param ∈ params, param.Long context.maxHdf5NameLength := by
    obtain ⟨param, hparam, hp⟩ := (q.params_long _).mpr hlong
    exact ⟨param, h.symm.subset hparam, hp⟩
  obtain ⟨e, hparams⟩ := unpackParameters_long context.malformed context.maxHdf5NameLength
    (fun param hparam => q.params_packs param (h.subset hparam)) hexists []
    ((h.map Parameter.name).nodup_iff.mpr q.params_nodup) (fun _ _ => List.not_mem_nil) {} []
  have hbody : unpackBody context.malformed context.maxHdf5NameLength (q.post params).body =
      .error e := by
    have hheader : (unpackMapHeader : Unpack Bytes Thrown Nat) (q.post params).body =
        .ok (params.length, packEntries params) := unpackMapHeader_cons (by omega) _
    rw [unpackBody, bind_ok hheader, if_neg (by omega), ← List.append_nil (packEntries params)]
    exact hparams
  rw [ServletContext.doPost, if_neg (fun hne => hne rfl), hbody]
  exact ⟨_, rfl⟩

/-! ## 6. Both -/

theorem sameAnswer_refused {a b : Nat} {x y : Except Refusal HDFStreamRequest} (hx : Refused a x)
    (hy : Refused b y) : SameAnswer x y ↔ a = b := by
  obtain ⟨_, rfl⟩ := hx
  obtain ⟨_, rfl⟩ := hy
  exact Iff.rfl

theorem not_sameAnswer_ok {a : Nat} {x : Except Refusal HDFStreamRequest} (hx : Refused a x)
    (hreq : HDFStreamRequest) : ¬ SameAnswer x (.ok hreq) := by
  obtain ⟨_, rfl⟩ := hx
  exact id

/-- A name that is too long for the decoder is too long, or not printable. -/
theorem Query.LongName.late (hpos : 0 < context.maxHdf5NameLength) (h : q.LongName context) :
    q.Late context := by
  obtain ⟨o, ho, hlong⟩ := h
  refine .inl ⟨o, ho, ?_⟩
  by_cases hascii : isPrintableAscii o = true
  · have hall : ∀ c ∈ o, c.toNat ≤ 127 := by
      intro c hc
      have hc' := List.all_eq_true.mp hascii c hc
      simp only [Bool.not_eq_true', Bool.or_eq_false_iff, decide_eq_false_iff_not] at hc'
      omega
    rw [utf8_length_of_ascii hall] at hlong
    exact .inl ⟨hpos, hlong⟩
  · exact .inr (Bool.eq_false_iff.mpr hascii)

theorem unpacked_eq_iff (q : Query) :
    (q.slice.map SliceString.slice = q.slice.map fun s => s.slice.unpacked) ↔
      ¬ q.DroppedSlices := by
  unfold Query.DroppedSlices
  rcases q.slice with _ | s
  · refine ⟨?_, fun _ => rfl⟩
    rintro _ ⟨s, hs, _⟩
    cases hs
  · have hunpacked : s.slice = s.slice.unpacked ↔ (s.slice.rank = 0 → s.slice.nrSlices = 1) := by
      unfold SliceInfo.unpacked
      split
      · rename_i hrank
        rcases hs : s.slice with ⟨n, r, starts, counts⟩
        rw [hs] at hrank
        simp only [SliceInfo.mk.injEq, and_true]
        exact ⟨fun h _ => h, fun h => h hrank⟩
      · rename_i hrank
        exact ⟨fun _ h => absurd h hrank, fun _ => rfl⟩
    rw [Option.map_some, Option.map_some, Option.some.injEq, hunpacked]
    constructor
    · rintro h ⟨s', hs', hrank, hne⟩
      rw [Option.mem_def, Option.some.injEq] at hs'
      subst hs'
      exact hne (h hrank)
    · intro h hrank
      by_contra hne
      exact h ⟨s, rfl, hrank, hne⟩

/-- Requests that get to the path, with a limit in the range of `int`. -/
theorem sameAnswer_int (hpos : 0 < context.maxHdf5NameLength) {params : List Parameter}
    (hparams : params.Perm q.params) (hearly : ¬ q.Early context) (hint : IsInt q.dataSizeLimit) :
    SameAnswer (context.doHeadOrGet q.get) (context.doPost (q.post params)) ↔
      ¬ (q.LongName context ∧ q.Unresolved context) ∧
        (q.Unresolved context ∨ q.Late context ∨ ¬ q.DroppedSlices) := by
  have hsome : (q.slice.map SliceString.slice).isSome = q.slice.isSome := Option.isSome_map
  have hsome' : (q.slice.map fun s => s.slice.unpacked).isSome = q.slice.isSome :=
    Option.isSome_map
  rw [doHeadOrGet_eq hint]
  by_cases hname : q.LongName context
  · have hpost := doPost_refused hparams hname
    by_cases hpath : q.Unresolved context
    · rw [sameAnswer_refused (construct_unresolved hearly hpath _) hpost]
      exact ⟨fun h => absurd h (by decide), fun h => absurd ⟨hname, hpath⟩ h.1⟩
    · have hlate := hname.late hpos
      rw [sameAnswer_refused (construct_late hearly hpath hlate hsome) hpost]
      exact ⟨fun _ => ⟨fun h => hpath h.2, .inr (.inl hlate)⟩, fun _ => rfl⟩
  · rw [doPost_eq hparams hname]
    have hleft : ¬ (q.LongName context ∧ q.Unresolved context) := fun h => hname h.1
    by_cases hpath : q.Unresolved context
    · rw [sameAnswer_refused (construct_unresolved hearly hpath _)
        (construct_unresolved hearly hpath _)]
      exact ⟨fun _ => ⟨hleft, .inl hpath⟩, fun _ => rfl⟩
    by_cases hlate : q.Late context
    · rw [sameAnswer_refused (construct_late hearly hpath hlate hsome)
        (construct_late hearly hpath hlate hsome')]
      exact ⟨fun _ => ⟨hleft, .inr (.inl hlate)⟩, fun _ => rfl⟩
    · obtain ⟨target, hok⟩ := construct_ok hearly hpath hlate
      rw [hok _ hsome, hok _ hsome', SameAnswer, HDFStreamRequest.mk.injEq, unpacked_eq_iff]
      constructor
      · rintro ⟨_, _, _, _, _, hdropped⟩
        exact ⟨hleft, .inr (.inr hdropped)⟩
      · rintro ⟨_, h⟩
        refine ⟨rfl, rfl, rfl, rfl, rfl, ?_⟩
        rcases h with h | h | h
        · exact absurd h hpath
        · exact absurd h hlate
        · exact h

/-- Requests that get to the path, with a limit that is no `int`. -/
theorem sameAnswer_long {params : List Parameter} (hparams : params.Perm q.params)
    (hearly : ¬ q.Early context) (hint : ¬ IsInt q.dataSizeLimit) :
    SameAnswer (context.doHeadOrGet q.get) (context.doPost (q.post params)) ↔
      q.LongName context ∨ (¬ q.Unresolved context ∧ q.Late context) := by
  have hsome : (q.slice.map fun s => s.slice.unpacked).isSome = q.slice.isSome :=
    Option.isSome_map
  have hget : Refused scBadRequest (context.doHeadOrGet q.get) := doHeadOrGet_refused hint
  by_cases hname : q.LongName context
  · rw [sameAnswer_refused hget (doPost_refused hparams hname)]
    exact ⟨fun _ => .inl hname, fun _ => rfl⟩
  · rw [doPost_eq hparams hname]
    by_cases hpath : q.Unresolved context
    · rw [sameAnswer_refused hget (construct_unresolved hearly hpath _)]
      refine ⟨fun h => absurd h (by decide), ?_⟩
      rintro (h | ⟨h, _⟩)
      · exact absurd h hname
      · exact absurd hpath h
    by_cases hlate : q.Late context
    · rw [sameAnswer_refused hget (construct_late hearly hpath hlate hsome)]
      exact ⟨fun _ => .inr ⟨hpath, hlate⟩, fun _ => rfl⟩
    · obtain ⟨target, hok⟩ := construct_ok hearly hpath hlate
      rw [hok _ hsome]
      refine ⟨fun h => absurd h (not_sameAnswer_ok hget _), ?_⟩
      rintro (h | ⟨_, h⟩)
      · exact absurd h hname
      · exact absurd h hlate

/-- **GET and POST end the same way if and only if `Agrees` holds of the parameters.** -/
theorem getPost_agree_iff (hpos : 0 < context.maxHdf5NameLength) {params : List Parameter}
    (hparams : params.Perm q.params) :
    SameAnswer (context.doHeadOrGet q.get) (context.doPost (q.post params)) ↔
      q.Agrees context := by
  have hlong := q.dataSizeLimit_long
  unfold IsLong at hlong
  unfold Query.Agrees
  by_cases hearly : q.Early context
  · -- the constructor refuses both, if it is called
    have hget : Refused scBadRequest (context.doHeadOrGet q.get) := by
      by_cases hint : IsInt q.dataSizeLimit
      · rw [doHeadOrGet_eq hint]
        exact construct_early hearly _
      · exact doHeadOrGet_refused hint
    have hpost : Refused scBadRequest (context.doPost (q.post params)) := by
      by_cases hname : q.LongName context
      · exact doPost_refused hparams hname
      · rw [doPost_eq hparams hname]
        exact construct_early hearly _
    exact ⟨fun _ => .inl hearly, fun _ => (sameAnswer_refused hget hpost).mpr rfl⟩
  · have hnonneg : 0 ≤ q.dataSizeLimit := by
      by_contra hneg
      exact hearly (.inr (.inr (by omega)))
    rw [or_iff_right hearly]
    by_cases hlt : q.dataSizeLimit < 2147483648
    · have hle : ¬ 2147483648 ≤ q.dataSizeLimit := by omega
      rw [sameAnswer_int hpos hparams hearly ⟨by omega, hlt⟩]
      exact ⟨fun h => .inl ⟨hlt, h⟩, fun h => h.elim And.right fun h => absurd h.1 hle⟩
    · have hint : ¬ IsInt q.dataSizeLimit := fun h => hlt h.2
      rw [sameAnswer_long hparams hearly hint]
      exact ⟨fun h => .inr ⟨by omega, h⟩, fun h => h.elim (fun h => absurd h.1 hlt) And.right⟩

/-! ## 7. A limit that is no `int`, and two slices -/

/-- The parameters of a request for the root group of a file, with a limit of 2^31 bytes. -/
def largeLimit : Query :=
  { pathInfo := none
    object := some (lit "/")
    maxDepth := 0
    dataSizeLimit := 2147483648
    slice := none
    maxDepth_int := ⟨by decide, by decide⟩
    dataSizeLimit_long := ⟨by decide, by decide⟩ }

/-- A server without files. -/
def emptyContext : ServletContext :=
  { virtualDirectory := newRoot
    inRole := fun _ => false
    maxHdf5NameLength := 4096
    malformed := fun _ => []
    libraryMessage := fun _ => [] }

/-- Two blocks of rows of a matrix. -/
def someRows : SliceString where
  descriptor := lit "0:3,2:5;7:9,2:5"
  slice := { nrSlices := 2, rank := 2, starts := [0, 2, 7, 2], counts := [3, 3, 2, 3] }
  parse_eq := by decide +kernel
  agree := fun k hk d hd hd' => by
    have hd : d = 1 := Nat.le_antisymm (Nat.le_of_lt_succ hd') hd
    subst hd
    match k, hk with
    | 0, _ => exact ⟨rfl, rfl⟩
    | 1, _ => exact ⟨rfl, rfl⟩

/-- The parameters of a request for them. -/
def rowsQuery : Query :=
  { pathInfo := none
    object := some (lit "/x")
    maxDepth := 0
    dataSizeLimit := 1024
    slice := some someRows
    maxDepth_int := ⟨by decide, by decide⟩
    dataSizeLimit_long := ⟨by decide, by decide⟩ }

/-- The first requests end differently, the others in the same way. -/
theorem getPost_agree_both :
    (SameAnswer (emptyContext.doHeadOrGet largeLimit.get)
        (emptyContext.doPost (largeLimit.post
          [.dataSizeLimit 2147483648, .object (lit "/"), .maxDepth 0])) ↔
      largeLimit.Agrees emptyContext) ∧
    SameAnswer (emptyContext.doHeadOrGet rowsQuery.get)
      (emptyContext.doPost (rowsQuery.post
        [.slice someRows.slice, .dataSizeLimit 1024, .maxDepth 0, .object (lit "/x")])) := by
  refine ⟨getPost_agree_iff (by decide) (by decide),
    (getPost_agree_iff (by decide) (by decide)).mpr (.inr (.inl ⟨by decide, ?_, .inr (.inr ?_)⟩))⟩
  · rintro ⟨⟨o, ho, hlt⟩, _⟩
    rw [← Option.some.inj ho] at hlt
    exact absurd hlt (by decide +kernel)
  · rintro ⟨s, hs, hrank, _⟩
    rw [← Option.some.inj hs] at hrank
    exact absurd hrank (by decide)

theorem largeLimit_differs :
    ¬ SameAnswer (emptyContext.doHeadOrGet largeLimit.get)
      (emptyContext.doPost (largeLimit.post largeLimit.params)) := by
  have hget : Refused scBadRequest (emptyContext.doHeadOrGet largeLimit.get) := by
    refine doHeadOrGet_refused ?_
    exact fun h => absurd h.2 (by decide)
  have hpost : ∃ hreq, emptyContext.doPost (largeLimit.post largeLimit.params) = .ok hreq := by
    have hname : ¬ largeLimit.LongName emptyContext := by
      rintro ⟨o, ho, hlt⟩
      rw [← Option.some.inj ho] at hlt
      exact absurd hlt (by decide +kernel)
    rw [doPost_eq (List.Perm.refl _) hname]
    exact ⟨_, rfl⟩
  obtain ⟨hreq, hpost⟩ := hpost
  rw [hpost]
  exact not_sameAnswer_ok hget hreq

end HdfStream.Webapp
