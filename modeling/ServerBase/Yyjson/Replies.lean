import Mathlib.Data.List.Forall2
import ServerBase.Response
import ServerBase.Yyjson.Building
import ServerBase.Yyjson.Document
import ServerBase.Yyjson.RoundTrip
import ServerBase.Yyjson.TextLength

/-!
# The documents of the replies

`send_jsonrpc_error` and `send_jsonrpc_response` build a document, write it, and send it behind the
head of an HTTP message.

**Documents** (`rep_errorDoc`, `rep_responseDoc`). What lies in the heap is the reply; the result of
the callback lies in it as it was.

**What is sent** (`error_reply`, `exists_response`). The document is written in full and framed,
and what a client reads back with `yyjson_read` is the reply.
-/

namespace ServerBase.Yyjson

open Json (Scalar Value)

variable {F : Type}

/-! ## The two functions -/

section
variable (constantP : Bytes → Bool)

/-- The member `"id"`, with null for a null pointer. -/
def addId (doc : MutDoc F) (root : Addr) (id : Option Int) : MutDoc F :=
  match id with
  | none =>
      let (null, doc) := mutNull doc
      (objAddVal constantP doc root (bytes "id") null).2
  | some id => (objAddInt constantP doc root (bytes "id") (.ofInt id)).2

/-- The document of `send_jsonrpc_error` -/
def errorDoc (memory : Heap F) (code : Int) (message : Bytes) (id : Option Int) : MutDoc F :=
  let (root, doc) := mutObj (mutDocNew memory)
  let doc := docSetRoot doc root
  let doc := (objAddStr constantP doc root (bytes "jsonrpc") (bytes "2.0")).2
  match objAddObj constantP doc root (bytes "error") with
  | (some err, doc) =>
      let doc := (objAddInt constantP doc err (bytes "code") (.ofInt code)).2
      let doc := (objAddStr constantP doc err (bytes "message") message).2
      addId constantP doc root id
  | (none, doc) => addId constantP doc root id

/-- The document of `send_jsonrpc_response`, which the callback began -/
def responseDoc (doc : MutDoc F) (id : Option Int) (result : Addr) : MutDoc F :=
  let (root, doc) := mutObj doc
  let doc := docSetRoot doc root
  let doc := (objAddStr constantP doc root (bytes "jsonrpc") (bytes "2.0")).2
  let doc := (objAddVal constantP doc root (bytes "result") result).2
  addId constantP doc root id

end

/-! ## Their values -/

/-- An `int` as a number of a document -/
def intNum (i : Int) : YyjsonNum F := .int (.ofInt64 (.ofInt i))

def idScalar : Option Int → Scalar (YyjsonNum F)
  | none => .null
  | some id => .num (intNum id)

theorem scalarBound_idScalar (id : Option Int) : scalarBound (idScalar (F := F) id) ≤ 40 := by
  cases id with
  | none => exact Nat.le_of_ble_eq_true rfl
  | some id => exact Nat.le_refl _

def errorVal (code : Int) (message : Bytes) (id : Option Int) : Value (YyjsonNum F) :=
  .obj [(bytes "jsonrpc", .scalar (.str (bytes "2.0"))),
    (bytes "error", .obj [(bytes "code", .scalar (.num (intNum code))),
      (bytes "message", .scalar (.str message))]),
    (bytes "id", .scalar (idScalar id))]

def responseVal (id : Option Int) (result : Value (YyjsonNum F)) : Value (YyjsonNum F) :=
  .obj [(bytes "jsonrpc", .scalar (.str (bytes "2.0"))), (bytes "result", result),
    (bytes "id", .scalar (idScalar id))]

/-! ## Building them -/

section
variable {store store' : Store F} {doc : MutDoc F} {constantP : Bytes → Bool}

mutual

/-- More nodes denote no less. -/
theorem Denotes.mono (h : ∀ p node, store p = some node → store' p = some node) :
    ∀ v p, Denotes store p v → Denotes store' p v
  | .scalar _ => fun p hp => h p _ hp
  | .arr _ => fun _ hp => hp.elim
  | .obj members => fun p ⟨ms, hms, hmembers⟩ =>
      ⟨ms, h p _ hms, DenotesMembers.mono h members ms hmembers⟩

theorem DenotesMembers.mono (h : ∀ p node, store p = some node → store' p = some node) :
    ∀ (members : List (Bytes × Value (YyjsonNum F))) (ms : List Member),
      DenotesMembers store ms members → DenotesMembers store' ms members
  | [] => fun ms hms => by
      cases ms with
      | nil => trivial
      | cons => exact hms.elim
  | (k, v) :: members => fun ms hms => by
      cases ms with
      | nil => exact hms.elim
      | cons m ms =>
          obtain ⟨hk, hv, hrest⟩ := hms
          exact ⟨hk, Denotes.mono h v _ hv, DenotesMembers.mono h members ms hrest⟩

end

theorem linked_update_obj {obj p : Addr} {ms : List Member}
    (h : Linked (Function.update store obj (some (.obj ms))) p) :
    p ∈ links ms ∨ Linked store p := by
  obtain ⟨q, ns, hq, hmem⟩ := h
  by_cases hqo : q = obj
  · subst hqo
    rw [Function.update_self] at hq
    injection hq with hq
    injection hq with hq
    exact .inl (hq ▸ hmem)
  · rw [Function.update_of_ne hqo] at hq
    exact .inr ⟨q, ns, hq, hmem⟩

theorem linked_update_scalar {a p : Addr} {s : Scalar (YyjsonNum F)}
    (h : Linked (Function.update store a (some (.scalar s))) p) : Linked store p := by
  obtain ⟨q, ns, hq, hmem⟩ := h
  rcases obj_of_update (fun _ hns => by cases hns) hq with hq | ⟨-, rfl⟩
  · exact ⟨q, ns, hq, hmem⟩
  · cases hmem

/-- One more member, with a scalar; the other values that were there stay. -/
structure Added (doc : MutDoc F) (store : Store F) (obj : Addr) (ms : List Member) (k : Bytes)
    (s : Scalar (YyjsonNum F)) (doc' : MutDoc F) (store' : Store F) (m : Member) : Prop where
  refines : Refines doc' store'
  object : store' obj = some (.obj (ms ++ [m]))
  key : m.key = k
  val : store' m.valAddr = some (.scalar s)
  old : ∀ p, p < doc.cur → p ≠ obj → store' p = store p
  linked : ∀ p, p < doc.cur → Linked store' p → Linked store p
  cur : doc.cur ≤ doc'.cur

theorem linked_of_added {obj key val p : Addr} {k : Bytes} {ms : List Member}
    {s : Scalar (YyjsonNum F)}
    (hobj : store obj = some (.obj ms)) (hkey : p ≠ key) (hval : p ≠ val)
    (h : Linked (Function.update (Function.update store val (some (.scalar s))) obj
      (some (.obj (ms ++ [⟨k, key, val⟩])))) p) : Linked store p := by
  rcases linked_update_obj h with hmem | h
  · rw [links_append, List.mem_append] at hmem
    rcases hmem with hmem | hmem
    · exact ⟨obj, ms, hobj, hmem⟩
    · obtain rfl | rfl : p = key ∨ p = val := by simpa [links] using hmem
      · exact absurd rfl hkey
      · exact absurd rfl hval
  · exact linked_update_scalar h

variable (constantP)

theorem objAddFunc_cur (doc : MutDoc F) (obj : Addr) (k : Bytes)
    (func : Heap F → Addr → Heap F × Addr) :
    doc.cur ≤ (objAddFunc constantP doc obj k func).2.cur := by
  unfold objAddFunc
  split
  · exact Nat.le_add_right _ _
  · exact Nat.le_refl _

theorem objAddObj_cur (doc : MutDoc F) (obj : Addr) (k : Bytes) :
    doc.cur ≤ (objAddObj constantP doc obj k).2.cur := by
  unfold objAddObj
  dsimp only
  split <;> exact Nat.le_add_right doc.cur 2

/-- **A scalar is added.** -/
theorem exists_addBody (h : Refines doc store) {obj : Addr} {ms : List Member} (k : Bytes)
    {body : MutBody F} {s : Scalar (YyjsonNum F)} (hobj : store obj = some (.obj ms))
    (hbody : Shows body s) :
    ∃ store' m, Added doc store obj ms k s (objAddBody constantP doc obj k body).2 store' m := by
  have hlt := h.lt_of_node hobj
  have hne : doc.cur + 1 ≠ obj := Nat.ne_of_gt (Nat.lt_succ_of_lt hlt)
  refine ⟨_, _, refines_objAddBody constantP h k hobj hbody, Function.update_self .., rfl,
    ?_, ?_, ?_, objAddFunc_cur ..⟩
  · rw [Function.update_of_ne hne, Function.update_self]
  · intro p hp hpo
    rw [Function.update_of_ne hpo, Function.update_of_ne (Nat.ne_of_lt (Nat.lt_succ_of_lt hp))]
  · intro p hp hl
    exact linked_of_added hobj (Nat.ne_of_lt hp) (Nat.ne_of_lt (Nat.lt_succ_of_lt hp)) hl

theorem shows_mutStr (s : Bytes) : Shows (F := F) (.str (mutStr constantP s)) (.str s) :=
  .str (mutStr constantP s)

/-- The id is added. -/
theorem exists_addId (h : Refines doc store) {root : Addr} {ms : List Member} (id : Option Int)
    (hroot : store root = some (.obj ms)) :
    ∃ store' m, Refines (addId constantP doc root id) store' ∧
      store' root = some (.obj (ms ++ [m])) ∧ m.key = bytes "id" ∧
      store' m.valAddr = some (.scalar (idScalar id)) ∧
      ∀ p, p < doc.cur → p ≠ root → store' p = store p := by
  cases id with
  | some id =>
      obtain ⟨store', m, hadded⟩ :=
        exists_addBody constantP h (bytes "id") hroot (.num (intNum id))
      exact ⟨store', m, hadded.refines, hadded.object, hadded.key, hadded.val, hadded.old⟩
  | none =>
      have hne : root ≠ doc.cur := Nat.ne_of_lt (h.lt_of_node hroot)
      have hnull := refines_mutNull h
      have hval : ¬ Linked (Function.update store doc.cur (some (.scalar .null))) doc.cur :=
        fun hl => (h.fresh doc.cur (Nat.le_refl _)).2 (linked_update_scalar hl)
      have hroot' : Function.update store doc.cur (some (.scalar .null)) root = some (.obj ms) := by
        rw [Function.update_of_ne hne]
        exact hroot
      refine ⟨_, _, refines_objAddVal constantP hnull (bytes "id") hroot' hval (Nat.lt_succ_self _),
        Function.update_self .., rfl, ?_, ?_⟩
      · show Function.update _ root _ doc.cur = _
        rw [Function.update_of_ne hne.symm]
        exact Function.update_self ..
      · intro p hp hpr
        rw [Function.update_of_ne hpr]
        exact Function.update_of_ne (Nat.ne_of_lt hp) _ _

/-- A scalar is not an object. -/
theorem ne_of_scalar {a b : Addr} {s : Scalar (YyjsonNum F)} {ms : List Member}
    (ha : store a = some (.scalar s)) (hb : store b = some (.obj ms)) : a ≠ b := by
  rintro rfl
  rw [ha] at hb
  cases hb

/-! ## The two documents -/

theorem objAddFunc_root (doc : MutDoc F) (obj : Addr) (k : Bytes)
    (func : Heap F → Addr → Heap F × Addr) :
    (objAddFunc constantP doc obj k func).2.root = doc.root := by
  unfold objAddFunc
  split <;> rfl

theorem addId_root (doc : MutDoc F) (root : Addr) (id : Option Int) :
    (addId constantP doc root id).root = doc.root := by
  cases id with
  | none => exact objAddFunc_root ..
  | some id => exact objAddFunc_root ..

theorem objAddObj_root (doc : MutDoc F) (obj : Addr) (k : Bytes) :
    (objAddObj constantP doc obj k).2.root = doc.root := by
  unfold objAddObj
  dsimp only
  split <;> rfl

/-- Both functions begin with an empty object and the version. -/
theorem exists_version (h : Refines doc store) :
    ∃ store' m, Added (docSetRoot (mutObj doc).2 doc.cur)
      (Function.update store doc.cur (some (.obj []))) doc.cur [] (bytes "jsonrpc")
      (.str (bytes "2.0"))
      (objAddStr constantP (docSetRoot (mutObj doc).2 doc.cur) doc.cur (bytes "jsonrpc")
        (bytes "2.0")).2 store' m := by
  have hroot : Refines (docSetRoot (mutObj doc).2 doc.cur)
      (Function.update store doc.cur (some (.obj []))) :=
    (refines_mutObj h).alloc (Nat.le_refl _) fun _ _ => rfl
  exact exists_addBody constantP hroot _ (Function.update_self ..) (shows_mutStr constantP _)

/-- **`send_jsonrpc_response`** builds the response around the result. -/
theorem rep_responseDoc (h : Refines doc store) (id : Option Int) {result : Addr}
    {v : Value (YyjsonNum F)} (hresult : Denotes store result v) (hlinked : ¬ Linked store result)
    (hlt : result < doc.cur) :
    ∃ root, (responseDoc constantP doc id result).root = some root ∧
      Rep (responseDoc constantP doc id result).heap root (responseVal id v) := by
  obtain ⟨store₁, version, h₁⟩ := exists_version constantP h
  have hlt₁ : result < (docSetRoot (mutObj doc).2 doc.cur).cur := Nat.lt_succ_of_lt hlt
  have hlinked₁ : ¬ Linked store₁ result := by
    intro hl
    rcases linked_update_obj (h₁.linked _ hlt₁ hl) with hmem | hl
    · cases hmem
    · exact hlinked hl
  have h₂ := refines_objAddVal constantP h₁.refines (bytes "result") h₁.object hlinked₁
    (Nat.lt_of_lt_of_le hlt₁ h₁.cur)
  obtain ⟨store₃, idMember, h₃, hobj, hidKey, hidVal, hold⟩ :=
    exists_addId constantP h₂ id (Function.update_self ..)
  refine ⟨doc.cur, (addId_root ..).trans ((objAddFunc_root ..).trans (objAddFunc_root ..)),
    rep_of_denotes_at h₃ _ _ ⟨_, hobj, h₁.key, ?_, rfl, ?_, hidKey, hidVal, trivial⟩⟩
  · -- the version stays
    have hne := ne_of_scalar h₁.val h₁.object
    have hver := h₁.refines.lt_of_node h₁.val
    show store₃ version.valAddr = _
    rw [hold _ (Nat.lt_of_lt_of_le hver (objAddFunc_cur ..)) hne, Function.update_of_ne hne]
    exact h₁.val
  · -- and so does what the result is made of
    refine Denotes.mono (fun p node hp => ?_) v result hresult
    have hpc := h.lt_of_node hp
    have hne : p ≠ doc.cur := Nat.ne_of_lt hpc
    have hp₁ := Nat.lt_of_lt_of_le (Nat.lt_succ_of_lt hpc) h₁.cur
    rw [hold p (Nat.lt_of_lt_of_le hp₁ (objAddFunc_cur ..)) hne, Function.update_of_ne hne,
      h₁.old p (Nat.lt_succ_of_lt hpc) hne, Function.update_of_ne hne]
    exact hp

/-- **`send_jsonrpc_error`** -/
theorem rep_errorDoc (memory : Heap F) (code : Int) (message : Bytes) (id : Option Int) :
    ∃ root, (errorDoc constantP memory code message id).root = some root ∧
      Rep (errorDoc constantP memory code message id).heap root (errorVal code message id) := by
  have hversion := exists_version constantP (refines_mutDocNew memory)
  change ∃ store' m, Added _ _ 0 [] _ _ (objAddStr constantP (docSetRoot (mutObj
    (mutDocNew memory)).2 0) 0 (bytes "jsonrpc") (bytes "2.0")).2 store' m at hversion
  generalize hdoc₁ : (objAddStr constantP (docSetRoot (mutObj (mutDocNew memory)).2 0) 0
    (bytes "jsonrpc") (bytes "2.0")).2 = doc₁ at hversion
  obtain ⟨store₁, version, h₁⟩ := hversion
  obtain ⟨herr, h₂⟩ := refines_objAddObj constantP h₁.refines (bytes "error") h₁.object
  have hcur₂ := objAddObj_cur constantP doc₁ 0 (bytes "error")
  have hroot₂ := objAddObj_root constantP doc₁ 0 (bytes "error")
  have hsplit : objAddObj constantP doc₁ 0 (bytes "error") =
      (some (doc₁.cur + 1), (objAddObj constantP doc₁ 0 (bytes "error")).2) := Prod.ext herr rfl
  generalize (objAddObj constantP doc₁ 0 (bytes "error")).2 = doc₂ at h₂ hcur₂ hroot₂ hsplit
  -- the new object is another one than the root
  have hroot₁ := h₁.refines.lt_of_node h₁.object
  have hne : doc₁.cur + 1 ≠ 0 := Nat.succ_ne_zero _
  have herrObj : Function.update (Function.update store₁ (doc₁.cur + 1) (some (.obj []))) 0
      (some (.obj ([version] ++ [⟨bytes "error", doc₁.cur, doc₁.cur + 1⟩]))) (doc₁.cur + 1) =
        some (.obj []) := by
    rw [Function.update_of_ne hne, Function.update_self]
  obtain ⟨store₃, codeMember, h₃⟩ := exists_addBody constantP h₂ (bytes "code") herrObj
    (.num (intNum code))
  obtain ⟨store₄, messageMember, h₄⟩ := exists_addBody constantP h₃.refines (bytes "message")
    h₃.object (shows_mutStr constantP message)
  have hlt₂ : ∀ {p}, p < doc₁.cur → p < doc₂.cur := fun hp => Nat.lt_of_lt_of_le hp hcur₂
  have hroot₃ : store₃ 0 =
      some (.obj ([version] ++ [⟨bytes "error", doc₁.cur, doc₁.cur + 1⟩])) := by
    rw [h₃.old 0 (hlt₂ hroot₁) hne.symm, Function.update_self]
    rfl
  have hroot₄ := (h₄.old 0 (Nat.lt_of_lt_of_le (hlt₂ hroot₁) h₃.cur) hne.symm).trans hroot₃
  obtain ⟨store₅, idMember, h₅, hobj, hidKey, hidVal, hold⟩ :=
    exists_addId constantP h₄.refines id hroot₄
  have hdoc : errorDoc constantP memory code message id = addId constantP
      (objAddStr constantP (objAddInt constantP doc₂ (doc₁.cur + 1) (bytes "code")
        (.ofInt code)).2 (doc₁.cur + 1) (bytes "message") message).2 0 id := by
    have hmatch : errorDoc constantP memory code message id =
        match objAddObj constantP doc₁ 0 (bytes "error") with
        | (some err, doc) => addId constantP (objAddStr constantP (objAddInt constantP doc err
            (bytes "code") (.ofInt code)).2 err (bytes "message") message).2 0 id
        | (none, doc) => addId constantP doc 0 id := by
      rw [← hdoc₁]
      rfl
    rw [hmatch, hsplit]
  rw [hdoc]
  refine ⟨0, ?_, rep_of_denotes_at h₅ _ _ ⟨_, hobj, h₁.key, ?_, rfl, ?_, hidKey, hidVal, trivial⟩⟩
  · rw [addId_root]
    refine (objAddFunc_root ..).trans ((objAddFunc_root ..).trans ?_)
    rw [hroot₂, ← hdoc₁]
    exact objAddFunc_root ..
  · -- the version stays
    have hver := h₁.refines.lt_of_node h₁.val
    have hne₀ := ne_of_scalar h₁.val h₁.object
    have hneErr : version.valAddr ≠ doc₁.cur + 1 := Nat.ne_of_lt (Nat.lt_succ_of_lt hver)
    show store₅ version.valAddr = _
    rw [hold _ (Nat.lt_of_lt_of_le (Nat.lt_of_lt_of_le (hlt₂ hver) h₃.cur) h₄.cur) hne₀,
      h₄.old _ (Nat.lt_of_lt_of_le (hlt₂ hver) h₃.cur) hneErr, h₃.old _ (hlt₂ hver) hneErr,
      Function.update_of_ne hne₀, Function.update_of_ne hneErr]
    exact h₁.val
  · have hobj₄ := h₄.object
    have hcode := ne_of_scalar h₃.val h₃.object
    have hcodeRoot := ne_of_scalar h₃.val hroot₃
    have hmessageRoot := ne_of_scalar h₄.val hroot₄
    refine ⟨[codeMember] ++ [messageMember], ?_, h₃.key, ?_, h₄.key, ?_, trivial⟩
    · show store₅ (doc₁.cur + 1) = _
      rw [hold _ (h₄.refines.lt_of_node hobj₄) hne]
      exact hobj₄
    · have hlt := h₃.refines.lt_of_node h₃.val
      show store₅ codeMember.valAddr = _
      rw [hold _ (Nat.lt_of_lt_of_le hlt h₄.cur) hcodeRoot, h₄.old _ hlt hcode]
      exact h₃.val
    · show store₅ messageMember.valAddr = _
      rw [hold _ (h₄.refines.lt_of_node h₄.val) hmessageRoot]
      exact h₄.val

end

/-! ## Objects of scalars -/

section
variable (constantP : Bytes → Bool)

/-- `yyjson_mut_obj` in a new document, and one `yyjson_mut_obj_add_*` for each member -/
def objDoc (memory : Heap F) (members : List (Bytes × MutBody F)) : Addr × MutDoc F :=
  let (result, doc) := mutObj (mutDocNew memory)
  (result, members.foldl (fun doc m => (objAddBody constantP doc result m.1 m.2).2) doc)

/-- An object of scalars -/
def scalarsVal (members : List (Bytes × Scalar (YyjsonNum F))) : Value (YyjsonNum F) :=
  .obj (members.map fun m => (m.1, .scalar m.2))

/-- The document after some members -/
structure Built (doc : MutDoc F) (store : Store F) (result : Addr) (ms : List Member)
    (members : List (Bytes × Scalar (YyjsonNum F))) : Prop where
  refines : Refines doc store
  object : store result = some (.obj ms)
  values : List.Forall₂ (fun m p => m.key = p.1 ∧ store m.valAddr = some (.scalar p.2)) ms members
  linked : ¬ Linked store result

variable {doc : MutDoc F} {store : Store F} {result : Addr} {ms : List Member}
  {members : List (Bytes × Scalar (YyjsonNum F))}

/-- **One member more.** -/
theorem Built.add (h : Built doc store result ms members) (k : Bytes) {body : MutBody F}
    {s : Scalar (YyjsonNum F)} (hbody : Shows body s) :
    ∃ store' m, Built (objAddBody constantP doc result k body).2 store' result (ms ++ [m])
      (members ++ [(k, s)]) := by
  have hlt := h.refines.lt_of_node h.object
  obtain ⟨store', m, hadded⟩ := exists_addBody constantP h.refines k h.object hbody
  refine ⟨store', m, hadded.refines, hadded.object, ?_, fun hl => h.linked (hadded.linked _ hlt hl)⟩
  refine List.rel_append ?_ (.cons ⟨hadded.key, hadded.val⟩ .nil)
  refine h.values.imp fun n q hq => ⟨hq.1, ?_⟩
  rw [hadded.old _ (h.refines.lt_of_node hq.2) (ne_of_scalar hq.2 h.object)]
  exact hq.2

/-- The bodies show the scalars. -/
abbrev ShowsAll (bodies : List (Bytes × MutBody F))
    (scalars : List (Bytes × Scalar (YyjsonNum F))) : Prop :=
  List.Forall₂ (fun b s => b.1 = s.1 ∧ Shows b.2 s.2) bodies scalars

theorem Built.foldl (h : Built doc store result ms members) {bodies : List (Bytes × MutBody F)}
    {scalars : List (Bytes × Scalar (YyjsonNum F))} (hshows : ShowsAll bodies scalars) :
    ∃ store' ms', Built
      (bodies.foldl (fun doc m => (objAddBody constantP doc result m.1 m.2).2) doc) store' result
      ms' (members ++ scalars) := by
  induction hshows generalizing doc store ms members with
  | nil => exact ⟨store, ms, by rw [List.append_nil]; exact h⟩
  | @cons b p bodies scalars hb _ ih =>
      obtain ⟨k, body⟩ := b
      obtain ⟨k', s⟩ := p
      obtain ⟨rfl, hbody⟩ := hb
      obtain ⟨store', m, h'⟩ := h.add constantP k hbody
      obtain ⟨store'', ms', h''⟩ := ih h'
      exact ⟨store'', ms', by rw [List.append_assoc] at h''; exact h''⟩

theorem denotes_of_values (h : List.Forall₂ (fun m p => m.key = p.1 ∧
      store m.valAddr = some (.scalar p.2)) ms members) :
    DenotesMembers store ms (members.map fun m => (m.1, .scalar m.2)) := by
  induction h with
  | nil => trivial
  | cons hp _ ih => exact ⟨hp.1, hp.2, ih⟩

/-- **What a callback builds** is the object of the scalars it adds. -/
theorem exists_objDoc (memory : Heap F) {bodies : List (Bytes × MutBody F)}
    (hshows : ShowsAll bodies members) :
    ∃ store, Refines (objDoc constantP memory bodies).2 store ∧
      Denotes store (objDoc constantP memory bodies).1 (scalarsVal members) ∧
      ¬ Linked store (objDoc constantP memory bodies).1 ∧
      (objDoc constantP memory bodies).1 < (objDoc constantP memory bodies).2.cur := by
  have hempty : Built (mutObj (mutDocNew memory)).2 _ (mutObj (mutDocNew memory)).1 [] [] :=
    ⟨refines_mutObj (refines_mutDocNew memory), Function.update_self .., .nil, fun hl => by
      rcases linked_update_obj hl with hl | ⟨_, _, hl, _⟩
      · cases hl
      · cases hl⟩
  obtain ⟨store, ms, h⟩ := hempty.foldl constantP hshows
  exact ⟨store, h.refines, ⟨ms, h.object, denotes_of_values h.values⟩, h.linked,
    h.refines.lt_of_node h.object⟩

end

/-! ## The text of a reply -/

section
variable (double : DoubleCodec F) (num : YyjsonNum F → Rat)

/-- The values of `int` -/
def IsInt (i : Int) : Prop := -2 ^ 31 ≤ i ∧ i < 2 ^ 31

/-- ASCII is UTF-8. -/
theorem utf8_literal {s : Bytes} (h : s.all (·.toNat < 0x80) = true) :
    ∃ cs, Json.utf8 cs = s := by
  induction s with
  | nil => exact ⟨[], rfl⟩
  | cons b s ih =>
      rw [List.all_cons, Bool.and_eq_true] at h
      obtain ⟨c, hc, -⟩ := exists_ascii (of_decide_eq_true h.1)
      obtain ⟨cs, rfl⟩ := ih h.2
      exact ⟨c :: cs, by rw [Json.utf8_cons, hc]; rfl⟩

theorem writable_scalar {s : Scalar (YyjsonNum F)}
    (h : Writable double.toDoubleWriter (.scalar s)) :
    ∀ t ∈ (Value.scalar s).tokens, Writable double.toDoubleWriter t := by
  intro t ht
  rw [Value.tokens, List.mem_singleton] at ht
  exact ht ▸ h

theorem writable_idScalar (id : Option Int) :
    Writable double.toDoubleWriter (.scalar (idScalar id)) := by
  cases id <;> trivial

/-- What is written of a value is seen as the value. -/
theorem parse_written {v : Value (YyjsonNum F)} {text : Bytes}
    (h : written double.toDoubleWriter v.tokens = some text) :
    parse num double.toDoubleReader text = some (view num v) :=
  (parse_eq_some_iff num double.toDoubleReader).2 ⟨v, written_spells double h, rfl⟩

variable {num} (hnum : ∀ i : Int64OrUInt64, IsInt i.val → num (.int i) = i.val)
include hnum

theorem num_intNum {i : Int} (hi : IsInt i) : num (intNum i) = i := by
  have hval : (Int64OrUInt64.ofInt64 (.ofInt i)).val = i := by
    obtain ⟨hlow, hhigh⟩ := hi
    exact Int64.toInt_ofInt_of_le (by omega) (by omega)
  rw [intNum, hnum _ (hval.symm ▸ hi), hval]

theorem view_idScalar {id : Option Int} (hid : ∀ i ∈ id, IsInt i) :
    view num (.scalar (idScalar id)) = idValue id := by
  cases id with
  | none => rfl
  | some i =>
      have hi : num (intNum i) = i := num_intNum hnum (hid i rfl)
      rw [view, idScalar, viewScalar, hi, idValue]

omit hnum in
/-- The document of a response is written. -/
theorem exists_response (constantP : Bytes → Bool) {doc : MutDoc F} {store : Store F}
    (h : Refines doc store) (estimatedValNum : Nat) (id : Option Int) {result : Addr}
    {v : Value (YyjsonNum F)} (hresult : Denotes store result v) (hlinked : ¬ Linked store result)
    (hlt : result < doc.cur) (hv : ∀ t ∈ v.tokens, Writable double.toDoubleWriter t) :
    ∃ root text n, (responseDoc constantP doc id result).root = some root ∧
      (∀ fuel, n ≤ fuel → yyjsonMutWrite double.toDoubleWriter
        (responseDoc constantP doc id result).heap fuel root estimatedValNum =
          some (.docEnd text)) ∧
      written double.toDoubleWriter (responseVal id v).tokens = some text := by
  obtain ⟨root, hroot, hrep⟩ := rep_responseDoc constantP h id hresult hlinked hlt
  have hwritable : ∀ t ∈ (responseVal id v).tokens, Writable double.toDoubleWriter t := by
    refine writable_obj fun m hm => ?_
    simp only [List.mem_cons, List.not_mem_nil, or_false] at hm
    rcases hm with rfl | rfl | rfl
    · exact ⟨utf8_literal (s := bytes "jsonrpc") (by decide),
        writable_scalar double (utf8_literal (s := bytes "2.0") (by decide))⟩
    · exact ⟨utf8_literal (s := bytes "result") (by decide), hv⟩
    · exact ⟨utf8_literal (s := bytes "id") (by decide),
        writable_scalar double (writable_idScalar double id)⟩
  obtain ⟨text, ⟨n, hn⟩, htext⟩ := exists_text double hrep hwritable estimatedValNum
  exact ⟨root, text, n, hroot, hn, htext⟩

theorem parse_response {id : Option Int} {v : Value (YyjsonNum F)} {text : Bytes}
    (hid : ∀ i ∈ id, IsInt i)
    (htext : written double.toDoubleWriter (responseVal id v).tokens = some text) :
    parse num double.toDoubleReader text = some (responseRoot id (view num v)) := by
  have hview : view num (responseVal id v) = responseRoot id (view num v) := by
    have hscalar := view_idScalar hnum hid
    rw [view] at hscalar
    simp only [responseVal, view, viewMembers, hscalar]
    simp only [viewScalar, responseRoot]
  exact hview ▸ parse_written double num htext

omit hnum in
/-- The document of an error is written. -/
theorem exists_error (constantP : Bytes → Bool) (memory : Heap F) (estimatedValNum : Nat)
    (code : Int) {message : Bytes} (id : Option Int) (hmessage : ∃ cs, Json.utf8 cs = message) :
    ∃ root text n, (errorDoc constantP memory code message id).root = some root ∧
      (∀ fuel, n ≤ fuel → yyjsonMutWrite double.toDoubleWriter
        (errorDoc constantP memory code message id).heap fuel root estimatedValNum =
          some (.docEnd text)) ∧
      written double.toDoubleWriter (errorVal code message id).tokens = some text := by
  obtain ⟨root, hroot, hrep⟩ := rep_errorDoc constantP memory code message id
  have hwritable : ∀ t ∈ (errorVal (F := F) code message id).tokens,
      Writable double.toDoubleWriter t := by
    refine writable_obj fun m hm => ?_
    simp only [List.mem_cons, List.not_mem_nil, or_false] at hm
    rcases hm with rfl | rfl | rfl
    · exact ⟨utf8_literal (s := bytes "jsonrpc") (by decide),
        writable_scalar double (utf8_literal (s := bytes "2.0") (by decide))⟩
    · refine ⟨utf8_literal (s := bytes "error") (by decide), writable_obj fun m hm => ?_⟩
      simp only [List.mem_cons, List.not_mem_nil, or_false] at hm
      rcases hm with rfl | rfl
      · exact ⟨utf8_literal (s := bytes "code") (by decide), writable_scalar double trivial⟩
      · exact ⟨utf8_literal (s := bytes "message") (by decide), writable_scalar double hmessage⟩
    · exact ⟨utf8_literal (s := bytes "id") (by decide),
        writable_scalar double (writable_idScalar double id)⟩
  obtain ⟨text, ⟨n, hn⟩, htext⟩ := exists_text double hrep hwritable estimatedValNum
  exact ⟨root, text, n, hroot, hn, htext⟩

theorem parse_error {code : Int} {message : String} {id : Option Int} {text : Bytes}
    (hcode : IsInt code) (hid : ∀ i ∈ id, IsInt i)
    (htext : written double.toDoubleWriter (errorVal code (bytes message) id).tokens = some text) :
    parse num double.toDoubleReader text = some (errorRoot code message id) := by
  have hview : view num (errorVal code (bytes message) id) = errorRoot code message id := by
    have hscalar := view_idScalar hnum hid
    rw [view] at hscalar
    simp only [errorVal, view, viewMembers, hscalar]
    simp only [viewScalar, num_intNum hnum hcode, errorRoot]
  exact hview ▸ parse_written double num htext

/-- **An error reply.** It is written, and a client reads what `send_jsonrpc_error` was called
with. The HTTP message holds it if it has at most 411 bytes. -/
theorem error_reply (constantP : Bytes → Bool) (memory : Heap F) (estimatedValNum : Nat)
    {code : Int} {message : String} {id : Option Int} (hcode : IsInt code)
    (hmessage : ∃ cs, Json.utf8 cs = bytes message) (hid : ∀ i ∈ id, IsInt i) :
    ∃ root text n, (errorDoc constantP memory code (bytes message) id).root = some root ∧
      (∀ fuel, n ≤ fuel → yyjsonMutWrite double.toDoubleWriter
        (errorDoc constantP memory code (bytes message) id).heap fuel root estimatedValNum =
          some (.docEnd text)) ∧
      parse num double.toDoubleReader text = some (errorRoot code message id) ∧
      ((Http.decode (sendJsonrpcError (fun _ => some text) code message id)).map
          Http.Message.body = some text ↔ text.length ≤ 411) := by
  obtain ⟨root, text, n, hroot, hn, htext⟩ :=
    exists_error double constantP memory estimatedValNum code id hmessage
  exact ⟨root, text, n, hroot, hn, parse_error double hnum hcode hid htext,
    decode_sendJsonrpcError _ code message id rfl (written_noNul htext)⟩

omit hnum

/-! ## Its length -/

/-- `"2.0"`, the id and the punctuation of a response have at most 74 bytes. -/
theorem length_response {id : Option Int} {v : Value (YyjsonNum F)} {text : Bytes}
    (h : written double.toDoubleWriter (responseVal id v).tokens = some text) :
    text.length ≤ textBound v + 74 := by
  have hbound := length_written h
  have hjsonrpc : strBound (bytes "jsonrpc") = 9 := by decide
  have hversion : strBound (bytes "2.0") = 5 := by decide
  have hresult : strBound (bytes "result") = 8 := by decide
  have hidKey : strBound (bytes "id") = 4 := by decide
  have hid := scalarBound_idScalar (F := F) id
  simp only [responseVal, textBound, membersBound, scalarBound_str, hjsonrpc, hversion, hresult,
    hidKey] at hbound
  omega

theorem length_error {code : Int} {message : Bytes} {id : Option Int} {text : Bytes}
    (h : written double.toDoubleWriter (errorVal code message id).tokens = some text) :
    text.length ≤ strBound message + 134 := by
  have hbound := length_written h
  have hjsonrpc : strBound (bytes "jsonrpc") = 9 := by decide
  have hversion : strBound (bytes "2.0") = 5 := by decide
  have herror : strBound (bytes "error") = 7 := by decide
  have hcode : strBound (bytes "code") = 6 := by decide
  have hmessage : strBound (bytes "message") = 9 := by decide
  have hidKey : strBound (bytes "id") = 4 := by decide
  have hid := scalarBound_idScalar (F := F) id
  simp only [errorVal, textBound, membersBound, scalarBound_str, scalarBound_num, hjsonrpc,
    hversion, herror, hcode, hmessage, hidKey] at hbound
  omega

/-! ## Objects of scalars in it -/

theorem writable_scalarsVal {members : List (Bytes × Scalar (YyjsonNum F))}
    (h : ∀ m ∈ members, (∃ cs, Json.utf8 cs = m.1) ∧
      Writable double.toDoubleWriter (.scalar m.2)) :
    ∀ t ∈ (scalarsVal members).tokens, Writable double.toDoubleWriter t := by
  refine writable_obj fun m hm => ?_
  obtain ⟨n, hn, rfl⟩ := List.mem_map.1 hm
  exact ⟨(h n hn).1, writable_scalar double (h n hn).2⟩

theorem view_scalarsVal (num : YyjsonNum F → Rat)
    (members : List (Bytes × Scalar (YyjsonNum F))) :
    view num (scalarsVal members) = .obj (members.map fun m => (m.1, viewScalar num m.2)) := by
  rw [scalarsVal, view]
  refine congrArg YyjsonVal.obj ?_
  induction members with
  | nil => rfl
  | cons m members ih => rw [List.map_cons, viewMembers, ih, view, List.map_cons]

end

/-- The value of an integer or of an integral double -/
def integralNum : YyjsonNum IntegralDouble → Rat
  | .int i => i.val
  | .real f => f.val

theorem error_reply_notFound :
    ∃ root text n,
      (errorDoc (F := IntegralDouble) (fun _ => true) (fun _ => ⟨.null, 0⟩) (-32601)
        (bytes "Method not found") (some 1)).root = some root ∧
      (∀ fuel, n ≤ fuel → yyjsonMutWrite integralCodec.toDoubleWriter
        (errorDoc (fun _ => true) (fun _ => ⟨.null, 0⟩) (-32601) (bytes "Method not found")
          (some 1)).heap fuel root 4 = some (.docEnd text)) ∧
      parse integralNum integralCodec.toDoubleReader text =
        some (errorRoot (-32601) "Method not found" (some 1)) ∧
      ((Http.decode (sendJsonrpcError (fun _ => some text) (-32601) "Method not found"
        (some 1))).map Http.Message.body = some text ↔ text.length ≤ 411) :=
  error_reply integralCodec (fun _ _ => rfl) (fun _ => true) (fun _ => ⟨.null, 0⟩) 4
    ⟨by decide, by decide⟩ (utf8_literal (by decide)) fun i hi => by
      obtain rfl := Option.some.inj hi
      exact ⟨by decide, by decide⟩

end ServerBase.Yyjson
