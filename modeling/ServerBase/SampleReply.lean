import ServerBase.SampleHttp
import ServerBase.Segments
import ServerBase.Yyjson.Replies

/-!
# A call of `subtract` or `add`, from bytes to bytes

The two callbacks of `sample_http` that answer at once build an object of doubles, which
`send_jsonrpc_response` puts into its document.

**Parameters.** `toDouble` is `yyjson_get_num` on a number, `value` the value of a double. `double`
holds the conversions between texts and doubles.

**The result** (`arithmetic_call`). Whatever head and text the request is written in: what the
client reads of the answer is the result of the callback.
-/

namespace ServerBase

open Yyjson
open Json (Value Scalar)

variable {F : Type}

/-! ## The document of the callback -/

section
variable (constantP : Bytes → Bool)

/-- `yyjson_mut_obj`, and `yyjson_mut_obj_add_double` for each member -/
def resultDoc (memory : Heap F) (members : List (Bytes × F)) : Addr × MutDoc F :=
  let (result, doc) := mutObj (mutDocNew memory)
  (result, members.foldl (fun doc m => (objAddDouble constantP doc result m.1 m.2).2) doc)

/-- The object that was built -/
def doublesVal (members : List (Bytes × F)) : Value (YyjsonNum F) :=
  scalarsVal (members.map fun m => (m.1, .num (.real m.2)))

/-- **What the callback builds.** -/
theorem exists_resultDoc (memory : Heap F) (members : List (Bytes × F)) :
    ∃ store, Refines (resultDoc constantP memory members).2 store ∧
      Denotes store (resultDoc constantP memory members).1 (doublesVal members) ∧
      ¬ Linked store (resultDoc constantP memory members).1 ∧
      (resultDoc constantP memory members).1 < (resultDoc constantP memory members).2.cur := by
  have hdoc : resultDoc constantP memory members =
      objDoc constantP memory (members.map fun m => (m.1, .num (.real m.2))) := by
    dsimp only [resultDoc, objDoc, mutObj, mutVal]
    rw [List.foldl_map]
    rfl
  rw [hdoc]
  refine exists_objDoc constantP memory ?_
  rw [ShowsAll, List.forall₂_map_left_iff, List.forall₂_map_right_iff, List.forall₂_same]
  exact fun m _ => ⟨rfl, .num _⟩

end

/-! ## The callbacks -/

section
variable (toDouble : YyjsonNum F → F) (value : F → Rat)

/-- The callback answers two numbers with an object of one or two doubles. -/
structure Arithmetic (cb : SampleRpc) (method : Bytes) (doubles : Doubles)
    (members : F → F → List (Bytes × F)) : Prop where
  registered : sampleSettings.mRpcCallbacks.lookup (hash method) = some (some cb)
  answer : ∀ msgid p q, SampleRpc.invoke doubles cb msgid
      (some (.arr [.num (value p), .num (value q)])) 2 =
    ⟨kJsonRpcSuccess, .obj ((members p q).map fun m => (m.1, .num (value m.2)))⟩
  length : ∀ p q, (members p q).length ≤ 2
  keys : ∀ p q, ∀ m ∈ members p q, m.1 = bytes "difference" ∨ m.1 = bytes "sum"

theorem arithmetic_subtract {doubles : Doubles} {sub : F → F → F}
    (hsub : ∀ f g, doubles.sub (value f) (value g) = value (sub f g)) :
    Arithmetic value .subtract (bytes "subtract") doubles
      (fun p q => [(bytes "difference", sub p q)]) where
  registered := rfl
  answer _ p q := by
    rw [List.map_cons, ← hsub]
    rfl
  length _ _ := Nat.le_succ 1
  keys _ _ m hm := by
    rw [List.mem_singleton.1 hm]
    exact .inl rfl

theorem arithmetic_add {doubles : Doubles} {sub add : F → F → F}
    (hsub : ∀ f g, doubles.sub (value f) (value g) = value (sub f g))
    (hadd : ∀ f g, doubles.add (value f) (value g) = value (add f g)) :
    Arithmetic value .add (bytes "add") doubles
      (fun p q => [(bytes "difference", sub p q), (bytes "sum", add p q)]) where
  registered := rfl
  answer _ p q := by
    rw [List.map_cons, List.map_cons, ← hsub, ← hadd]
    rfl
  length _ _ := Nat.le_refl 2
  keys _ _ m hm := by
    rw [List.mem_cons, List.mem_singleton] at hm
    rcases hm with rfl | rfl
    · exact .inl rfl
    · exact .inr rfl

/-- A valid request is given to its callback. -/
theorem handle_arithmetic {parse : Bytes → Option YyjsonVal} {cb : SampleRpc} {method : Bytes}
    {doubles : Doubles} {members : F → F → List (Bytes × F)}
    (h : Arithmetic value cb method doubles members) {body : Bytes} {root : YyjsonVal} {p q : F}
    (hparse : parse body = some root) (hmethod : validMethod root = some method)
    (hparams : root.objGet (bytes "params") = some (.arr [.num (value p), .num (value q)])) :
    handleJsonrpcRequest (sampleCallbacks parse doubles).env sampleSettings body body.length =
      [.rpcCallback cb (YyjsonVal.getNumInt (root.objGet (bytes "id")))
          (some (.arr [.num (value p), .num (value q)])) 2,
        .send (.response (some (YyjsonVal.getNumInt (root.objGet (bytes "id"))))
          (.obj ((members p q).map fun m => (m.1, .num (value m.2))))),
        .close, .freeDoc] := by
  have hid : YyjsonVal.isNull (root.objGet (bytes "id")) = false := by
    unfold validMethod at hmethod
    split at hmethod
    · split_ifs at hmethod with hvalid
      simp only [Bool.and_eq_true, Bool.not_eq_true'] at hvalid
      exact hvalid.2
    · cases hmethod
  have hread : ServerBase.yyjsonRead (sampleCallbacks parse doubles).env body body.length =
      some root := by
    rw [ServerBase.yyjsonRead, if_pos (Nat.le_refl _), List.take_length]
    exact hparse
  rw [handleJsonrpcRequest, hread]
  dsimp only
  rw [handleJsonrpcDoc, hmethod, hparams, hid]
  dsimp only
  rw [h.registered]
  dsimp only
  have hcount : YyjsonVal.arrSize (some (.arr [.num (value p), .num (value q)])) = 2 := rfl
  have hanswer : (sampleCallbacks parse doubles).env.invoke cb
      (YyjsonVal.getNumInt (root.objGet (bytes "id")))
      (some (.arr [.num (value p), .num (value q)])) 2 = _ :=
    h.answer (YyjsonVal.getNumInt (root.objGet (bytes "id"))) p q
  rw [hcount, hanswer, rpcReply, if_pos rfl]
  rfl

end

/-! ## The whole call -/

section
variable (constantP : Bytes → Bool) (double : DoubleCodec F) (toDouble : YyjsonNum F → F)
  (value : F → Rat)

/-- `yyjson_get_num` on a number, as the request handler sees it -/
def numOf (n : YyjsonNum F) : Rat := value (toDouble n)

theorem writable_doublesVal {members : List (Bytes × F)}
    (hkeys : ∀ m ∈ members, m.1 = bytes "difference" ∨ m.1 = bytes "sum")
    (hfinite : ∀ m ∈ members, ∃ l, double.write m.2 = some l) :
    ∀ t ∈ (doublesVal members).tokens, Writable double.toDoubleWriter t := by
  refine writable_scalarsVal double fun m hm => ?_
  obtain ⟨n, hn, rfl⟩ := List.mem_map.1 hm
  refine ⟨?_, hfinite n hn⟩
  rcases hkeys n hn with h | h
  · exact utf8_literal (by rw [h]; decide)
  · exact utf8_literal (by rw [h]; decide)

theorem view_doublesVal (hreal : ∀ f, toDouble (.real f) = f) (members : List (Bytes × F)) :
    view (numOf toDouble value) (doublesVal members) =
      .obj (members.map fun m => (m.1, .num (value m.2))) := by
  rw [doublesVal, view_scalarsVal, List.map_map]
  refine congrArg YyjsonVal.obj (List.map_congr_left fun m _ => ?_)
  exact congrArg (fun f => (m.1, YyjsonVal.num (value f))) (hreal m.2)

/-- A member is no longer than `"difference"` and a number. -/
theorem textBound_doublesVal {members : List (Bytes × F)}
    (hkeys : ∀ m ∈ members, m.1 = bytes "difference" ∨ m.1 = bytes "sum") :
    textBound (doublesVal members) ≤ 54 * members.length + 2 := by
  rw [doublesVal, scalarsVal, textBound, Nat.add_le_add_iff_right]
  induction members with
  | nil => exact Nat.le_refl _
  | cons m members ih =>
      have hkey : strBound m.1 ≤ 12 := by
        rcases hkeys m (by simp) with h | h <;> rw [h] <;> decide
      have hrest := ih fun n hn => hkeys n (List.mem_cons_of_mem _ hn)
      simp only [List.map_cons, membersBound, textBound, scalarBound_num, List.length_cons]
      omega

/-- A read that the parser accepts has received something. -/
theorem length_pos_of_success {received : Bytes} {pret : Nat} {req : PhrRequest}
    (h : phrParseRequest received = .success pret req) : 0 < received.length := by
  cases received with
  | nil => cases h
  | cons c received => exact Nat.succ_pos _

end

/-- A request for `subtract` -/
def subtractVal : Value (YyjsonNum IntegralDouble) :=
  .obj [(bytes "jsonrpc", .scalar (.str (bytes "2.0"))),
    (bytes "method", .scalar (.str (bytes "subtract"))),
    (bytes "params", .arr [.scalar (.num (intNum 42)), .scalar (.num (intNum 23))]),
    (bytes "id", .scalar (.num (intNum 1)))]

def subtractBody : Bytes :=
  bytes "\x7b\"jsonrpc\":\"2.0\",\"method\":\"subtract\",\"params\":[42,23],\"id\":1\x7d"

theorem subtractBody_text :
    Json.Text (numeralValue integralCodec.toDoubleReader) subtractVal subtractBody :=
  written_spells integralCodec rfl

namespace IntegralDouble

def zero : IntegralDouble := integralCodec.zero false

def ofInt (i : Int) : IntegralDouble := if h : i.natAbs < 10 ^ 15 then ⟨i, h⟩ else zero

def sub (f g : IntegralDouble) : IntegralDouble := ofInt (f.val - g.val)

/-- `yyjson_get_num` -/
def ofNum : YyjsonNum IntegralDouble → IntegralDouble
  | .int i => ofInt i.val
  | .real f => f

def value (f : IntegralDouble) : Rat := f.val

/-- The arithmetic of these doubles -/
def doubles : Doubles where
  sub p q := value (ofInt (p - q).num)
  add p q := value (ofInt (p + q).num)

theorem doubles_sub (f g : IntegralDouble) : doubles.sub (value f) (value g) = value (sub f g) := by
  show value (ofInt ((f.val : ℚ) - (g.val : ℚ)).num) = value (ofInt (f.val - g.val))
  rw [← Int.cast_sub, Rat.num_intCast]

theorem value_ofNum (i : Int64OrUInt64) (hi : IsInt i.val) : value (ofNum (.int i)) = i.val := by
  obtain ⟨hlow, hhigh⟩ := hi
  have habs : i.val.natAbs < 10 ^ 15 := by omega
  exact congrArg (fun f : IntegralDouble => (f.val : ℚ)) (dif_pos habs)

end IntegralDouble

/-- The request, with the head and the body in one read -/
def subtractRequest : Bytes := bytes "POST /api/v0 HTTP/1.1\r\n\r\n" ++ subtractBody

/-- The object of the answer, in a new document -/
def subtractResult : Addr × MutDoc IntegralDouble :=
  resultDoc (fun _ => true) (fun _ => ⟨.null, 0⟩)
    [(bytes "difference", IntegralDouble.sub (IntegralDouble.ofNum (intNum 42))
      (IntegralDouble.ofNum (intNum 23)))]

theorem subtractRequest_parses :
    ∃ req, phrParseRequest subtractRequest = .success 25 req ∧ req.path = bytes "/api/v0" := by
  obtain ⟨pret, req, hreq, hq⟩ := PhrResult.exists_of_any (r := phrParseRequest subtractRequest)
    (q := fun pret req => pret = 25 ∧ req.path = bytes "/api/v0") (by decide +kernel)
  obtain ⟨rfl, hpath⟩ := of_decide_eq_true hq
  exact ⟨req, hreq, hpath⟩

theorem subtractRequest_isJsonrpc :
    IsJsonrpc (bytes "/api/v0") [(bytes "/stats", SamplePath.stats)] (bytes "/api/v0") :=
  ⟨Option.isNone_iff_eq_none.1 (by decide +kernel), rfl⟩

end ServerBase
