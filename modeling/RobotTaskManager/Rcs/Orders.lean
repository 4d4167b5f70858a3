import RobotTaskManager.Lib.PyRoundTrip
import RobotTaskManager.Rcs.Bridge
import RobotTaskManager.Rcs.Http

set_option autoImplicit false

/-! # The dicts of an order on their way

The bridge reads `behavior_parameter` and `userdata_in` from the body of `/order`, and
`submit_order` writes them with `json.dumps` into the goal; the executor reads them from there with
`_safe_json_loads`, writes `userdata_in` into its status, and the bridge shows it at `/state`.

`order_delivered` follows them from the body to the executor: nothing else arrives there, and
nothing is dropped. A key that is no string arrives as one, and two surrogates may arrive as one
character; the theorem says when the executor has the same dict. `snapshot_shows_userdata` is about
the way back.
-/

namespace RobotTaskManager.Rcs.Orders

open PyText PyJson
open PyValue (bind_ok_iff map_ok ok_bind)

/-! ## `json.dumps` of a dict -/

/-- The exceptions of `json.dumps`. -/
inductive DumpsError
  | raised (e : Raised)
  | typeError
deriving DecidableEq

variable (repr : Double → Text)

/-- What `encoder_listencode_dict` writes for a key. -/
def keyText : Val → Except DumpsError Text
  | .str s => .ok s
  | .float x => .ok (encodeFloat repr x)
  | .bool b => .ok (ofString (if b then "true" else "false"))
  | .null => .ok (ofString "null")
  | .int n => if IntTooLong n then .error (.raised .valueError) else .ok (intRepr n)
  | .list _ => .error .typeError
  | .dict _ => .error .typeError

/-- One turn of `encoder_listencode_dict`. -/
def dumpsItem (levels : ℕ) (e : Val × Val) : Except DumpsError Text := do
  let key ← keyText repr e.1
  let value ← (dumps repr levels e.2).mapError .raised
  return encodeItem key value

/-- `json.dumps` of a dict with keys of any kind -/
def dumpsDict : ℕ → List (Val × Val) → Except DumpsError Text
  | 0, _ => .error (.raised .recursionError)
  | levels + 1, d => (d.mapM (dumpsItem repr levels)).map Bracket.object.text

/-! ## The goal -/

/-- The goal that `submit_order` sends. -/
structure Goal where
  subjobId : Text
  behaviorParameterJson : Text
  userdataInJson : Text

/-- How `submit_order` fills the goal; `levels`: how many lists and dicts can be open then. -/
def submitGoal (levels : ℕ) (req : Http.OrderRequest) : Except DumpsError Goal := do
  let behaviorParameterJson ← dumpsDict repr levels req.behaviorParameter
  let userdataInJson ← dumpsDict repr levels req.userdataIn
  return ⟨req.subjobId, behaviorParameterJson, userdataInJson⟩

/-! ## The executor -/

/-- `json.loads` of a string -/
def loadsStr (levels : ℕ) (s : Text) : Except Raised Val :=
  if s.head? = some 0xFEFF then .error .jsonDecodeError else decodeText levels s

/-- The dict that was read; what is no dict and a `JSONDecodeError` give the empty one. -/
def dictOrEmpty : Except Raised Val → Except Raised (List (Text × Val))
  | .ok (.dict items) => .ok items
  | .ok _ => .ok []
  | .error .jsonDecodeError => .ok []
  | .error e => .error e

/-- `_safe_json_loads` -/
def safeJsonLoads (levels : ℕ) (s : Text) : Except Raised (List (Text × Val)) :=
  if Text.strip s = [] then .ok [] else dictOrEmpty (loadsStr levels (Text.strip s))

/-! ## What arrives -/

/-- The items of a dict, with their keys as they are written. -/
def Named (d : List (Val × Val)) (items : List (Text × Val)) : Prop :=
  List.Forall₂ (fun e item => keyText repr e.1 = .ok item.1 ∧ e.2 = item.2) d items

/-- The dict of items, with surrogates joined. -/
def arrived (items : List (Text × Val)) : List (Text × Val) :=
  (Val.rejoinItems items).foldl (fun d e => setItem (· == ·) d e.1 e.2) []

/-- The dict as one with keys of any kind. -/
def asDict (items : List (Text × Val)) : List (Val × Val) := items.map fun e => (.str e.1, e.2)

/-- All keys are strings, and there are no two surrogates to be joined. -/
def Intact (d : List (Val × Val)) : Prop :=
  ∀ e ∈ d, (∃ s, e.1 = .str s ∧ Unpaired s) ∧ e.2.All Clean

/-- The text of a dict is read in the executor as the dict with its keys as they are written and
with surrogates joined; unless fewer lists and dicts can be open there than in the bridge, nothing
is raised. The dict is as it was exactly if it is intact. -/
def Delivered (levels levels' : ℕ) (d : List (Val × Val)) (t : Text) : Prop :=
  ∃ items, Named repr d items ∧
    (safeJsonLoads levels' t = .ok (arrived items) ∨
      levels' < levels ∧ Aborts (safeJsonLoads levels' t)) ∧
    (asDict (arrived items) = d ↔ Intact d)

variable {repr}

section Written

variable {levels : ℕ} {d : List (Val × Val)} {t : Text}

theorem mapM_dumpsItem {ts : List Text} (h : d.mapM (dumpsItem repr levels) = .ok ts) :
    ∃ items, Named repr d items ∧ dumpsItems repr levels items = .ok ts := by
  induction d generalizing ts with
  | nil =>
      cases h
      exact ⟨[], .nil, rfl⟩
  | cons e d ih =>
      rw [List.mapM_cons] at h
      obtain ⟨t, ht, h⟩ := bind_ok_iff.mp h
      obtain ⟨ts', hts, h⟩ := bind_ok_iff.mp h
      cases h
      obtain ⟨items, hnamed, hitems⟩ := ih hts
      obtain ⟨key, hkey, ht⟩ := bind_ok_iff.mp ht
      obtain ⟨value, hvalue, ht⟩ := bind_ok_iff.mp ht
      cases ht
      have hdumps : dumps repr levels e.2 = .ok value := by
        cases hcase : dumps repr levels e.2 with
        | error => rw [hcase] at hvalue; cases hvalue
        | ok => rw [hcase] at hvalue; cases hvalue; rfl
      exact ⟨(key, e.2) :: items, .cons ⟨hkey, rfl⟩ hnamed,
        by rw [dumpsItems, hdumps, ok_bind, hitems]; rfl⟩

/-- A dict is written like the one with its keys as they are written. -/
theorem dumpsDict_ok (h : dumpsDict repr levels d = .ok t) :
    ∃ items, Named repr d items ∧ dumps repr levels (.dict items) = .ok t := by
  cases levels with
  | zero => cases h
  | succ levels =>
      obtain ⟨ts, hts, rfl⟩ := map_ok h
      obtain ⟨items, hnamed, hitems⟩ := mapM_dumpsItem hts
      exact ⟨items, hnamed, by rw [dumps, hitems]; rfl⟩

/-- A dict is written between braces. -/
theorem dumps_dict_ok {items : List (Text × Val)} (h : dumps repr levels (.dict items) = .ok t) :
    ∃ ts, t = Bracket.object.text ts := by
  cases levels with
  | zero =>
      rw [dumps] at h
      cases h
  | succ levels =>
      rw [dumps] at h
      obtain ⟨ts, -, rfl⟩ := map_ok h
      exact ⟨ts, rfl⟩

theorem strip_text (ts : List Text) :
    Text.strip (Bracket.object.text ts) = Bracket.object.text ts := by
  have hopening : (Bracket.object.text ts).dropWhile isSpace = Bracket.object.text ts :=
    List.dropWhile_cons_of_neg (by decide)
  have hreverse : (Bracket.object.text ts).reverse =
      Bracket.object.closing :: (Bracket.object.opening :: joinItems ts).reverse := by
    rw [Bracket.text, List.reverse_append, List.reverse_singleton, List.singleton_append]
  rw [Text.strip, hopening, hreverse, List.dropWhile_cons_of_neg (by decide), ← hreverse,
    List.reverse_reverse]

/-- Of a dict that was written, `_safe_json_loads` makes what `json.loads` gives. -/
theorem safeJsonLoads_text (levels' : ℕ) (ts : List Text) :
    safeJsonLoads levels' (Bracket.object.text ts) =
      dictOrEmpty (decodeText levels' (Bracket.object.text ts)) := by
  have hmark : (Bracket.object.text ts).head? ≠ some 0xFEFF := by
    intro h
    cases h
  have hne : Bracket.object.text ts ≠ [] := List.cons_ne_nil _ _
  rw [safeJsonLoads, strip_text, if_neg hne, loadsStr, if_neg hmark]

theorem aborts_dictOrEmpty {x : Except Raised Val} (h : Aborts x) : Aborts (dictOrEmpty x) := by
  obtain ⟨e, rfl, hne⟩ := h
  refine ⟨e, ?_, hne⟩
  cases e with
  | jsonDecodeError => exact absurd rfl hne
  | unicodeDecodeError => rfl
  | valueError => rfl
  | recursionError => rfl

theorem rejoin_dict (items : List (Text × Val)) :
    (Val.dict items).rejoin = .dict (arrived items) := by
  rw [Val.rejoin]
  rfl

/-- A dict that is written arrives with surrogates joined. -/
theorem safeJsonLoads_dumps {items : List (Text × Val)}
    (hsound : (Val.dict items).All (Sound repr))
    (h : dumps repr levels (.dict items) = .ok t) (levels' : ℕ) :
    safeJsonLoads levels' t = .ok (arrived items) ∨
      levels' < levels ∧ Aborts (safeJsonLoads levels' t) := by
  obtain ⟨ts, rfl⟩ := dumps_dict_ok h
  rw [safeJsonLoads_text]
  by_cases hle : levels ≤ levels'
  · left
    rw [decodeText_dumps hsound h hle, rejoin_dict]
    rfl
  · cases decodeText_dumps_or_aborts hsound h levels' with
    | inl hok =>
        left
        rw [hok, rejoin_dict]
        rfl
    | inr habort => exact Or.inr ⟨not_le.mp hle, aborts_dictOrEmpty habort⟩

end Written

/-! ## What `dict` makes -/

section Dicts

variable {p : Val → Prop}

/-- Keys are texts if the values are. -/
theorem keyText_isText {key : Val} {s : Text} (hkey : key.All (Sound repr))
    (h : keyText repr key = .ok s) : IsText s := by
  cases key with
  | null =>
      cases h
      decide
  | bool b =>
      cases h
      cases b <;> decide
  | int n =>
      rw [keyText] at h
      split_ifs at h
      cases h
      exact (printable_intRepr n).isAscii.isText
  | float x =>
      cases h
      exact (printable_encodeFloat hkey).isAscii.isText
  | str s =>
      cases h
      exact hkey
  | list xs => cases h
  | dict items => cases h

theorem elements_all {v : Val} {xs : List Val} (hv : v.All (Sound repr))
    (h : v.elements? = some xs) : ∀ x ∈ xs, x.All (Sound repr) := by
  cases v with
  | str s =>
      cases h
      refine List.forall_mem_map.mpr fun c hc => ?_
      exact List.forall_mem_singleton.mpr (hv c hc)
  | list xs =>
      cases h
      exact (Val.allList_iff _).mp hv.2
  | dict items =>
      cases h
      exact List.forall_mem_map.mpr fun e he => hv.1 e he
  | null => cases h
  | bool b => cases h
  | int n => cases h
  | float x => cases h

theorem setItem_all {p : Val → Prop} {d : List (Val × Val)} {key w : Val}
    (hd : ∀ e ∈ d, p e.1 ∧ p e.2) (hkey : p key) (hw : p w) :
    ∀ e ∈ setItem Val.sameKey d key w, p e.1 ∧ p e.2 := by
  intro e he
  unfold setItem at he
  split_ifs at he with hany
  · obtain ⟨old, hold, rfl⟩ := List.mem_map.mp he
    split_ifs
    · exact ⟨(hd old hold).1, hw⟩
    · exact hd old hold
  · rcases List.mem_append.mp he with hold | hnew
    · exact hd e hold
    · rw [List.mem_singleton.mp hnew]
      exact ⟨hkey, hw⟩

theorem mergeFromSeq2_all {i : ℕ} {d d' : List (Val × Val)} {xs : List Val}
    (hd : ∀ e ∈ d, e.1.All (Sound repr) ∧ e.2.All (Sound repr))
    (hxs : ∀ x ∈ xs, x.All (Sound repr)) (h : Val.mergeFromSeq2 i d xs = .ok d') :
    ∀ e ∈ d', e.1.All (Sound repr) ∧ e.2.All (Sound repr) := by
  induction xs generalizing i d with
  | nil =>
      cases h
      exact hd
  | cons x xs ih =>
      rw [List.forall_mem_cons] at hxs
      obtain ⟨⟨key, w⟩, hpair, h⟩ := bind_ok_iff.mp h
      have hboth := elements_all hxs.1 (Val.pair_ok_iff.mp hpair).1
      exact ih (setItem_all (p := Val.All (Sound repr)) hd (hboth key (by simp))
        (hboth w (by simp))) hxs.2 h

/-- What `dict` makes of a sound value is sound. -/
theorem toDict_all {v : Val} {d : List (Val × Val)} (hv : v.All (Sound repr))
    (h : v.toDict = .ok d) : ∀ e ∈ d, e.1.All (Sound repr) ∧ e.2.All (Sound repr) := by
  unfold Val.toDict at h
  split at h
  next items =>
      cases h
      have hitems := (Val.allItems_iff items).mp hv.2
      exact List.forall_mem_map.mpr fun e he => ⟨hv.1 e he, hitems e he⟩
  next =>
      split at h
      next => cases h
      next xs hxs => exact mergeFromSeq2_all (by simp) (elements_all hv hxs) h

theorem named_all {d : List (Val × Val)} {items : List (Text × Val)} (h : Named repr d items)
    (hd : ∀ e ∈ d, e.1.All (Sound repr) ∧ e.2.All (Sound repr)) :
    (Val.dict items).All (Sound repr) := by
  have hitems : ∀ e ∈ items, IsText e.1 ∧ e.2.All (Sound repr) := by
    induction h with
    | nil => simp
    | @cons e item d items hnamed _ ih =>
        rw [List.forall_mem_cons] at hd
        exact List.forall_mem_cons.mpr
          ⟨⟨keyText_isText hd.1.1 hnamed.1, hnamed.2 ▸ hd.1.2⟩, ih hd.2⟩
  exact ⟨fun e he => (hitems e he).1, (Val.allItems_iff items).mpr fun e he => (hitems e he).2⟩

/-- No two keys are the same. -/
def Distinct (d : List (Val × Val)) : Prop := d.Pairwise fun e e' => Val.sameKey e.1 e'.1 = false

theorem distinct_setItem {d : List (Val × Val)} {key w : Val} (hd : Distinct d) :
    Distinct (setItem Val.sameKey d key w) := by
  unfold setItem
  split_ifs with hany
  · refine hd.map _ fun e e' hne => ?_
    split_ifs <;> exact hne
  · refine List.pairwise_append.mpr ⟨hd, List.pairwise_singleton _ _, fun e he e' he' => ?_⟩
    rw [List.mem_singleton.mp he']
    exact Bool.eq_false_iff.mpr fun hsame => hany (List.any_eq_true.mpr ⟨e, he, hsame⟩)

theorem distinct_mergeFromSeq2 {i : ℕ} {d d' : List (Val × Val)} {xs : List Val} (hd : Distinct d)
    (h : Val.mergeFromSeq2 i d xs = .ok d') : Distinct d' := by
  induction xs generalizing i d with
  | nil =>
      cases h
      exact hd
  | cons x xs ih =>
      obtain ⟨⟨key, w⟩, -, h⟩ := bind_ok_iff.mp h
      exact ih (distinct_setItem hd) h

theorem distinct_toDict {v : Val} {d : List (Val × Val)} (hv : v.All (Val.Over IsText))
    (h : v.toDict = .ok d) : Distinct d := by
  unfold Val.toDict at h
  split at h
  next items =>
      cases h
      have hnodup : items.Pairwise fun e e' => e.1 ≠ e'.1 := List.pairwise_map.mp hv.1.1
      refine hnodup.map _ fun e e' hne => ?_
      exact Bool.eq_false_iff.mpr fun hsame => hne (eq_of_beq hsame)
  next =>
      split at h
      next => cases h
      next xs hxs => exact distinct_mergeFromSeq2 .nil h

end Dicts

/-! ## What arrives unchanged -/

section Unchanged

variable {d : List (Val × Val)} {items : List (Text × Val)}

theorem all_clean_arrived (items : List (Text × Val)) : (Val.dict (arrived items)).All Clean :=
  rejoin_dict items ▸ all_clean_rejoin (.dict items)

theorem asDict_of_named (h : Named repr d items) (hd : ∀ e ∈ d, ∃ s, e.1 = .str s) :
    asDict items = d := by
  induction h with
  | nil => rfl
  | @cons e item d items hnamed _ ih =>
      rw [List.forall_mem_cons] at hd
      obtain ⟨s, hs⟩ := hd.1
      obtain ⟨key, v⟩ := e
      obtain ⟨key', v'⟩ := item
      obtain ⟨hkey, hvalue⟩ := hnamed
      cases hs
      cases hkey
      cases hvalue
      exact congrArg _ (ih hd.2)

/-- The dict is as it was exactly if it is intact. -/
theorem arrived_iff (h : Named repr d items) (hd : Distinct d) :
    asDict (arrived items) = d ↔ Intact d := by
  constructor
  · rintro rfl
    have hclean := all_clean_arrived items
    have hvalues := (Val.allItems_iff _).mp hclean.2
    exact List.forall_mem_map.mpr fun e he => ⟨⟨e.1, rfl, hclean.1.2 e he⟩, hvalues e he⟩
  · intro hintact
    obtain rfl := asDict_of_named h fun e he => ⟨_, (hintact e he).1.choose_spec.1⟩
    have hitems : ∀ e ∈ items, Unpaired e.1 ∧ e.2.All Clean := by
      intro e he
      obtain ⟨⟨s, hs, hunpaired⟩, hvalue⟩ := hintact _ (List.mem_map_of_mem he)
      cases hs
      exact ⟨hunpaired, hvalue⟩
    have hnodup : (items.map Prod.fst).Nodup := by
      refine List.pairwise_map.mpr ((List.pairwise_map.mp hd).imp fun hne heq => ?_)
      rw [heq] at hne
      exact absurd hne (by simp [Val.sameKey])
    have hclean : (Val.dict items).All Clean :=
      ⟨⟨hnodup, fun e he => (hitems e he).1⟩,
        (Val.allItems_iff items).mpr fun e he => (hitems e he).2⟩
    have hsame := (Val.rejoin_eq_iff (.dict items)).mpr hclean
    rw [rejoin_dict, Val.dict.injEq] at hsame
    rw [hsame]

end Unchanged

/-! ## The results -/

section Results

variable {P : Interpreter} {levels : ℕ} {body : List UInt8} {data : Val} {req : Http.OrderRequest}
  {goal : Goal}

theorem delivered {v : Val} {d : List (Val × Val)} {t : Text} (hover : v.All (Val.Over IsText))
    (hfloats : v.All (FloatReadsBack repr)) (hdict : v.toDict = .ok d)
    (h : dumpsDict repr levels d = .ok t) (levels' : ℕ) : Delivered repr levels levels' d t := by
  obtain ⟨items, hnamed, hdumps⟩ := dumpsDict_ok h
  have hsound := named_all hnamed (toDict_all (hover.sound hfloats) hdict)
  exact ⟨items, hnamed, safeJsonLoads_dumps hsound hdumps levels',
    arrived_iff hnamed (distinct_toDict hover hdict)⟩

/-- Both dicts of an order come from the items of the body. -/
theorem fromDict_ok (h : Http.OrderRequest.fromDict P data = .ok req) :
    ∃ items, data = .dict items ∧
      ((getItem items "behavior_parameter").orElse (.dict [])).toDict = .ok req.behaviorParameter ∧
      ((getItem items "userdata_in").orElse (.dict [])).toDict = .ok req.userdataIn := by
  cases data with
  | dict items =>
      rw [Http.OrderRequest.fromDict] at h
      split_ifs at h
      · obtain ⟨behaviorParameter, hbehavior, h⟩ := bind_ok_iff.mp h
        obtain ⟨userdataIn, huserdata, h⟩ := bind_ok_iff.mp h
        obtain ⟨n, -, h⟩ := bind_ok_iff.mp h
        cases h
        exact ⟨items, rfl, hbehavior, huserdata⟩
      · cases h
  | null => cases h
  | bool b => cases h
  | int n => cases h
  | float x => cases h
  | str s => cases h
  | list xs => cases h

theorem all_getItem {p : Val → Prop} {items : List (Text × Val)} (key : String) (hnull : p .null)
    (h : (Val.dict items).All p) : (getItem items key).All p := by
  unfold getItem
  cases hlookup : items.lookup (ofString key) with
  | none => exact hnull
  | some v =>
      obtain ⟨l₁, l₂, hitems, -⟩ := List.lookup_eq_some_iff.mp hlookup
      exact (Val.allItems_iff items).mp h.2 (ofString key, v) (by simp [hitems])

theorem getItem_all {p : Val → Prop} {items : List (Text × Val)} (key : String)
    (hnull : p .null) (hempty : p (.dict [])) (h : (Val.dict items).All p) :
    ((getItem items key).orElse (.dict [])).All p := by
  unfold Val.orElse
  split_ifs
  · exact all_getItem key hnull h
  · exact ⟨hempty, trivial⟩

/-- **An order is delivered.** Whatever body is accepted at `/order`: of `behavior_parameter` and
`userdata_in` the executor gets what was in the body, with its keys as strings and surrogates
joined, and never an empty dict instead of it. -/
theorem order_delivered (hbody : loads P.maxNesting body = .ok data)
    (hreq : Http.OrderRequest.fromDict P data = .ok req)
    (hfloats : data.All (FloatReadsBack repr)) (hgoal : submitGoal repr levels req = .ok goal)
    (levels' : ℕ) :
    Delivered repr levels levels' req.behaviorParameter goal.behaviorParameterJson ∧
      Delivered repr levels levels' req.userdataIn goal.userdataInJson := by
  have hover := all_over_of_loads hbody
  obtain ⟨items, rfl, hbehavior, huserdata⟩ := fromDict_ok hreq
  obtain ⟨behaviorParameterJson, hbehaviorJson, hgoal⟩ := bind_ok_iff.mp hgoal
  obtain ⟨userdataInJson, huserdataJson, hgoal⟩ := bind_ok_iff.mp hgoal
  cases hgoal
  have hdict (key : String) : ((getItem items key).orElse (.dict [])).All (Val.Over IsText) :=
    getItem_all key trivial ⟨.nil, by simp⟩ hover
  have hfloat (key : String) : ((getItem items key).orElse (.dict [])).All (FloatReadsBack repr) :=
    getItem_all key trivial trivial hfloats
  exact ⟨delivered (hdict _) (hfloat _) hbehavior hbehaviorJson levels',
    delivered (hdict _) (hfloat _) huserdata huserdataJson levels'⟩

/-- `float.__repr__` of multiples of one half that are not too large. -/
def halvesRepr : Double → Text
  | .finite negative m => (if negative then ofString "-" else []) ++ natRepr ⌊m⌋₊ ++
      ofString (if m = ⌊m⌋₊ then ".0" else ".5")
  | _ => []

def half : Double := .finite false (1 / 2)

theorem halvesRepr_half : halvesRepr half = ofString "0.5" := by decide +kernel

theorem readsBack_half : ReadsBack halvesRepr half := by
  refine ⟨by decide +kernel, fun rest hrest => ?_⟩
  have hrepr : halvesRepr (.finite false (1 / 2)) = ofString "0.5" := halvesRepr_half
  rw [hrepr]
  refine ⟨⟨false, ofString "0", ofString "5", none⟩, ?_, rfl, ?_⟩
  · have hdigits : ∀ c ∈ ofString "5", isDigit c = true := by decide
    obtain ⟨htake, hdrop⟩ := takeDigits hdigits hrest
    have hfraction : matchFraction (ofString ".5" ++ rest) = (ofString "5", rest) := by
      have hne : (ofString "5" ++ rest).takeWhile isDigit ≠ [] := by
        rw [htake]
        decide
      show matchFraction ('.'.toNat :: (ofString "5" ++ rest)) = _
      rw [matchFraction, if_pos ⟨rfl, hne⟩, htake, hdrop]
    have hnumber : matchNumber (ofString "0.5" ++ rest) =
        some (⟨false, ofString "0", (matchFraction (ofString ".5" ++ rest)).1,
          (matchExponent (matchFraction (ofString ".5" ++ rest)).2).1⟩,
          (matchExponent (matchFraction (ofString ".5" ++ rest)).2).2) := rfl
    rw [hnumber, hfraction, matchExponent_delimited hrest]
  · have hvalue : (Double.nearest false (digitsValue (ofString "0" ++ ofString "5") *
        10 ^ ((none : Option ℤ).getD 0 - (ofString "5").length))) = .finite false (1 / 2) := by
      decide +kernel
    exact congrArg Val.float hvalue

/-- An order with a float and with a key that is no string. -/
def pairsOrder : Val :=
  .dict [(ofString "subjob_id", .str (ofString "P")),
    (ofString "behavior_parameter", .dict [(ofString "speed", .float half)]),
    (ofString "userdata_in", .list [.list [.bool true, .null]])]

def pairsText : Text :=
  ofString "\x7b\"subjob_id\": \"P\", \"behavior_parameter\": \x7b\"speed\": 0.5\x7d, " ++
    ofString "\"userdata_in\": [[true, null]]\x7d"

def pairsBody : List UInt8 := pairsText.map UInt8.ofNat

def shallowInterpreter : Interpreter := ⟨fun _ => [], fun _ => false, fun _ => none, 3, by decide⟩

theorem loads_pairsBody : loads shallowInterpreter.maxNesting pairsBody = .ok pairsOrder := by
  have hdecode : decode (detectEncoding pairsBody) pairsBody = some pairsText := by
    decide +kernel
  have hdumps : dumps halvesRepr 3 pairsOrder = .ok pairsText := by
    decide +kernel
  have hsound : pairsOrder.All (Sound halvesRepr) := by
    simp only [pairsOrder, Val.All, Val.AllItems, Val.AllList, Sound, readsBack_half, and_true]
    decide
  have hclean : pairsOrder.All Clean := by
    have hunpaired : ∀ t ∈ ["subjob_id", "behavior_parameter", "speed", "userdata_in", "P"],
        Unpaired (ofString t) := by
      simp only [← rejoin_eq_iff]
      decide
    simp only [List.forall_mem_cons] at hunpaired
    simp only [pairsOrder, Val.All, Val.AllItems, Val.AllList, Clean, Val.Over, and_true,
      List.forall_mem_cons]
    simp [hunpaired]
    decide
  rw [loads, hdecode]
  exact (decodeText_dumps_iff hsound hdumps (le_refl 3)).mpr hclean

/-- A float arrives as it is, and a key that is no string arrives as one. -/
theorem pairsOrder_delivered :
    Delivered halvesRepr 3 3 [(.str (ofString "speed"), .float half)]
        (ofString "\x7b\"speed\": 0.5\x7d") ∧
      Delivered halvesRepr 3 3 [(.bool true, .null)] (ofString "\x7b\"true\": null\x7d") := by
  have hreq : Http.OrderRequest.fromDict shallowInterpreter pairsOrder =
      .ok ⟨ofString "P", [(.str (ofString "speed"), .float half)], [(.bool true, .null)], [], 0⟩ :=
    rfl
  have hfloats : pairsOrder.All (FloatReadsBack halvesRepr) := by
    simp only [pairsOrder, Val.All, Val.AllItems, Val.AllList, FloatReadsBack, readsBack_half,
      and_true]
  have hbehavior : dumpsDict halvesRepr 3 [(.str (ofString "speed"), .float half)] =
      .ok (ofString "\x7b\"speed\": 0.5\x7d") := by
    decide +kernel
  have huserdata : dumpsDict halvesRepr 3 [(.bool true, .null)] =
      .ok (ofString "\x7b\"true\": null\x7d") := by
    decide +kernel
  have hgoal : submitGoal halvesRepr 3
      ⟨ofString "P", [(.str (ofString "speed"), .float half)], [(.bool true, .null)], [], 0⟩ =
      .ok ⟨ofString "P", ofString "\x7b\"speed\": 0.5\x7d", ofString "\x7b\"true\": null\x7d"⟩ := by
    rw [submitGoal, hbehavior, huserdata]
    rfl
  exact order_delivered loads_pairsBody hreq hfloats hgoal 3

end Results

end RobotTaskManager.Rcs.Orders
