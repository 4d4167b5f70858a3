import RobotTaskManager.Lib.PyEq

set_option autoImplicit false

/-! # JSON values that pass through JavaScript

An object of JavaScript lists those of its keys that are array indices first, in ascending order,
and then the others in the order in which they came. A number of JavaScript is a double.
`Val.js` is what Python reads of a JSON value once `JSON.parse` has read it and `JSON.stringify`
has written it again. Which double a number becomes is a parameter; it has none if it is too large,
and `JSON.stringify` then writes `null`.
-/

namespace PyValue

/-! ## The order of the keys -/

/-- The number of an array index: a decimal numeral without leading zeros, below `2 ^ 32 - 1`. -/
def arrayIndex? (s : String) : Option Nat :=
  match s.toList with
  | [] => none
  | '0' :: cs => if cs = [] then some 0 else none
  | cs =>
      let n := cs.foldl (fun n c => 10 * n + (c.toNat - '0'.toNat)) 0
      if cs.all Char.isDigit ∧ n < 4294967295 then some n else none

example : ["0", "12", "012", "-1", "4294967295", ""].map arrayIndex?
    = [some 0, some 12, none, none, none, none] := by decide

def Key.index? : Key → Option Nat
  | .str s => arrayIndex? s
  | _ => Option.none

/-- Whether `a` may stand before `b` in an object. -/
def Key.jsLe (a b : Key) : Bool :=
  match a.index?, b.index? with
  | some i, some j => i ≤ j
  | Option.none, some _ => false
  | _, Option.none => true

theorem Key.jsLe_total (a b : Key) : a.jsLe b = true ∨ b.jsLe a = true := by
  unfold Key.jsLe
  cases a.index? with
  | none => cases b.index? <;> simp
  | some i =>
      cases b.index? with
      | none => simp
      | some j => simpa using Nat.le_total i j

theorem Key.jsLe_trans {a b c : Key} (hab : a.jsLe b = true) (hbc : b.jsLe c = true) :
    a.jsLe c = true := by
  unfold Key.jsLe at *
  cases ha : a.index? with
  | none =>
      cases hb : b.index? with
      | none => simpa [ha, hb] using hbc
      | some j => simp [ha, hb] at hab
  | some i =>
      cases hc : c.index? with
      | none => rfl
      | some k =>
          cases hb : b.index? with
          | none => simp [hb, hc] at hbc
          | some j =>
              have hij : i ≤ j := by simpa [ha, hb] using hab
              have hjk : j ≤ k := by simpa [hb, hc] using hbc
              simpa using hij.trans hjk

section Order

variable {α β : Type}

/-- The items of an object, in the order in which JavaScript lists them. -/
def jsOrder (d : List (Key × α)) : List (Key × α) := d.insertionSort fun a b => a.1.jsLe b.1

/-- The keys are in the order in which JavaScript lists them. -/
def JsOrdered (d : List (Key × α)) : Prop := d.Pairwise fun a b => a.1.jsLe b.1 = true

instance (d : List (Key × α)) : Decidable (JsOrdered d) :=
  inferInstanceAs (Decidable (d.Pairwise _))

theorem jsOrder_perm (d : List (Key × α)) : (jsOrder d).Perm d := List.perm_insertionSort _ d

theorem jsOrdered_jsOrder (d : List (Key × α)) : JsOrdered (jsOrder d) := by
  have : Std.Total fun a b : Key × α => a.1.jsLe b.1 = true := ⟨fun a b => a.1.jsLe_total b.1⟩
  have : IsTrans (Key × α) fun a b => a.1.jsLe b.1 = true := ⟨fun _ _ _ => Key.jsLe_trans⟩
  exact List.pairwise_insertionSort _ d

/-- An object whose keys are in order stays as it is, and only such an object does. -/
theorem jsOrder_eq_self {d : List (Key × α)} : jsOrder d = d ↔ JsOrdered d :=
  ⟨fun h => h ▸ jsOrdered_jsOrder d, List.Pairwise.insertionSort_eq⟩

theorem jsOrdered_keys {d : List (Key × α)} :
    JsOrdered d ↔ (d.map Prod.fst).Pairwise fun a b => a.jsLe b = true := by
  rw [JsOrdered, List.pairwise_map]

/-- The order is one of the keys alone. -/
theorem jsOrder_map (f : α → β) (d : List (Key × α)) :
    jsOrder (d.map fun e => (e.1, f e.2)) = (jsOrder d).map fun e => (e.1, f e.2) :=
  (List.map_insertionSort _ _ (fun e : Key × α => (e.1, f e.2)) d fun _ _ _ _ => Iff.rfl).symm

end Order

/-! ## Values -/

namespace Val

mutual

/-- The value after `JSON.parse` and `JSON.stringify`. -/
def js (double : ℚ → Option ℚ) : Val → Val
  | .key (.num q) =>
      match double q with
      | some r => .key (.num r)
      | none => .null
  | .key k => .key k
  | .list xs => .list (jsList double xs)
  | .dict d => .dict (jsOrder (jsItems double d))

def jsList (double : ℚ → Option ℚ) : List Val → List Val
  | [] => []
  | x :: xs => x.js double :: jsList double xs

def jsItems (double : ℚ → Option ℚ) : List (Key × Val) → List (Key × Val)
  | [] => []
  | (k, v) :: rest => (k, v.js double) :: jsItems double rest

end

end Val

/-- The items of an object after `JSON.parse` and `JSON.stringify`. -/
def jsDict (double : ℚ → Option ℚ) (d : Dict) : Dict :=
  jsOrder (d.map fun e => (e.1, e.2.js double))

mutual

/-- The numbers in a value, at any depth. -/
def Val.numbers : Val → List ℚ
  | .key (.num q) => [q]
  | .key _ => []
  | .list xs => listNumbers xs
  | .dict d => dictNumbers d

def listNumbers : List Val → List ℚ
  | [] => []
  | x :: xs => x.numbers ++ listNumbers xs

def dictNumbers : List (Key × Val) → List ℚ
  | [] => []
  | (_, v) :: rest => v.numbers ++ dictNumbers rest

end

/-- All numbers in the value are doubles, so that JavaScript keeps them. -/
def Kept (double : ℚ → Option ℚ) (v : Val) : Prop := ∀ q ∈ v.numbers, double q = some q

section Js

variable {double : ℚ → Option ℚ} {d : Dict} {xs : List Val} {v : Val}

theorem Val.jsList_eq (xs : List Val) : Val.jsList double xs = xs.map (Val.js double) := by
  induction xs with
  | nil => rfl
  | cons x xs ih => rw [Val.jsList, ih, List.map_cons]

theorem Val.jsItems_eq (d : Dict) :
    Val.jsItems double d = d.map fun e => (e.1, e.2.js double) := by
  induction d with
  | nil => rfl
  | cons e rest ih => rw [Val.jsItems, ih, List.map_cons]

theorem Val.js_list (xs : List Val) : (Val.list xs).js double = .list (xs.map (Val.js double)) := by
  rw [Val.js, Val.jsList_eq]

theorem Val.js_dict (d : Dict) : (Val.dict d).js double = .dict (jsDict double d) := by
  rw [Val.js, Val.jsItems_eq, jsDict]

@[simp] theorem Val.js_str (s : String) : (Val.str s).js double = .str s := rfl

theorem DistinctKeys.jsDict (hd : DistinctKeys d) : DistinctKeys (jsDict double d) := by
  refine DistinctKeys.perm ?_ (jsOrder_perm _)
  rw [distinctKeys_iff, List.map_map]
  exact distinctKeys_iff.mp hd

theorem mem_jsDict {e : Key × Val} :
    e ∈ jsDict double d ↔ ∃ e₀ ∈ d, (e₀.1, e₀.2.js double) = e := by
  rw [jsDict, (jsOrder_perm _).mem_iff, List.mem_map]

/-- The values of an object, by their keys. -/
theorem item_jsDict (hd : DistinctKeys d) (k : Key) :
    item (jsDict double d) k = (item d k).map (Val.js double) := by
  have hmap : DistinctKeys (d.map fun e => (e.1, e.2.js double)) := by
    rw [distinctKeys_iff, List.map_map]
    exact distinctKeys_iff.mp hd
  rw [jsDict, item_perm hmap (jsOrder_perm _).symm, item_map]

/-- The keys keep their order if it is that of JavaScript. -/
theorem jsDict_of_jsOrdered (h : JsOrdered d) :
    jsDict double d = d.map fun e => (e.1, e.2.js double) := by
  rw [jsDict, jsOrder_map, jsOrder_eq_self.mpr h]

theorem jsOrdered_of_keys (h : (jsDict double d).map Prod.fst = d.map Prod.fst) : JsOrdered d := by
  rw [jsOrdered_keys, ← h]
  exact jsOrdered_keys.mp (jsOrdered_jsOrder _)

/-- Where every number is a double, all values are kept. -/
theorem kept_some (v : Val) : Kept some v := fun _ _ => rfl

theorem IsJson.js (hv : IsJson v) : IsJson (v.js double) := by
  induction hv with
  | key k =>
      cases k with
      | num q =>
          rw [Val.js]
          cases double q <;> exact .key _
      | _ => exact .key _
  | list _ ih =>
      rw [Val.js_list]
      exact .list (List.forall_mem_map.mpr ih)
  | @dict d hd hkeys _ ih =>
      rw [Val.js_dict]
      refine .dict hd.jsDict (fun e he => ?_) fun e he => ?_
      · obtain ⟨e₀, he₀, rfl⟩ := mem_jsDict.mp he
        exact hkeys e₀ he₀
      · obtain ⟨e₀, he₀, rfl⟩ := mem_jsDict.mp he
        exact ih e₀ he₀

theorem kept_list : Kept double (.list xs) ↔ ∀ x ∈ xs, Kept double x := by
  show (∀ q ∈ listNumbers xs, double q = some q) ↔ _
  induction xs with
  | nil => simp [listNumbers]
  | cons x xs ih =>
      rw [listNumbers, List.forall_mem_append, ih, List.forall_mem_cons]
      rfl

theorem kept_dict : Kept double (.dict d) ↔ ∀ e ∈ d, Kept double e.2 := by
  show (∀ q ∈ dictNumbers d, double q = some q) ↔ _
  induction d with
  | nil => simp [dictNumbers]
  | cons e rest ih =>
      obtain ⟨k, v⟩ := e
      rw [dictNumbers, List.forall_mem_append, ih, List.forall_mem_cons]
      rfl

/-- **A value passes through JavaScript unchanged**, up to the order of its keys, exactly if its
numbers do. -/
theorem pyEq_js_iff (hv : IsJson v) : PyEq v (v.js double) ↔ Kept double v := by
  induction hv with
  | key k =>
      cases k with
      | num q =>
          rw [Kept, Val.numbers, List.forall_mem_singleton, Val.js]
          cases double q with
          | none =>
              refine iff_of_false ?_ (by simp)
              rintro ⟨h⟩
              cases h
          | some r =>
              rw [pyEq_key_iff, Option.some.injEq]
              constructor
              · rintro ⟨b, hb, hsame⟩
                obtain rfl := Val.key.inj hb
                simpa [Key.same, Key.number?, eq_comm] using hsame
              · rintro rfl
                exact ⟨_, rfl, Key.same_refl _⟩
      | _ => exact iff_of_true (.key (Key.same_refl _)) (List.forall_mem_nil _)
  | list _ ih =>
      rw [Val.js_list, pyEq_list_iff, List.forall₂_map_right_iff, List.forall₂_same, kept_list]
      exact forall₂_congr ih
  | @dict d hd hkeys _ ih =>
      rw [Val.js_dict, pyEq_dict_iff, kept_dict]
      constructor
      · rintro ⟨d₁, hp, hitems⟩ e he
        -- what `e` is compared with comes from an item with the same key, and that is `e`
        obtain ⟨e', he', hsame, heq⟩ := exists_mem_of_forall₂ hitems (hp.mem_iff.mp he)
        obtain ⟨e₀, he₀, rfl⟩ := mem_jsDict.mp he'
        obtain rfl := hd.eq_of_same he he₀ hsame
        exact (ih e he).mp heq
      · intro hkept
        refine ⟨jsOrder d, (jsOrder_perm d).symm, ?_⟩
        rw [jsDict, jsOrder_map, List.forall₂_map_right_iff, List.forall₂_same]
        intro e he
        have he' : e ∈ d := (jsOrder_perm d).mem_iff.mp he
        exact ⟨Key.same_refl _, (ih e he').mpr (hkept e he')⟩

end Js

/-- **What is made item by item**, under the keys of a dict, corresponds to what is made after
JavaScript exactly if the keys are in order and each pair corresponds. -/
theorem forall₂_jsDict_iff {β : Type} {double : ℚ → Option ℚ} {d : Dict} {bs : List β}
    {R R' : Key × Val → β → Prop} {A : β → β → Prop} {P : Key × Val → Prop} {name : β → Key}
    (hR : ∀ e b, R e b → name b = e.1) (hR' : ∀ e b, R' e b → name b = e.1)
    (hA : ∀ b b', A b b' → name b' = name b) (h : List.Forall₂ R d bs)
    (hpair : ∀ e ∈ d, ∀ b, R e b → ((∃ b', R' (e.1, e.2.js double) b' ∧ A b b') ↔ P e)) :
    (∃ bs', List.Forall₂ R' (jsDict double d) bs' ∧ List.Forall₂ A bs bs') ↔
      JsOrdered d ∧ ∀ e ∈ d, P e := by
  have hordered (hord : JsOrdered d) :
      (∃ bs', List.Forall₂ R' (jsDict double d) bs' ∧ List.Forall₂ A bs bs') ↔ ∀ e ∈ d, P e := by
    simp only [jsDict_of_jsOrdered hord, List.forall₂_map_left_iff]
    rw [forall₂_between_iff h, forall₂_iff_forall_mem h hpair]
  constructor
  · intro hex
    have hord : JsOrdered d := by
      obtain ⟨bs', hmade, hcorr⟩ := hex
      -- the names are the keys, on both sides
      have hkeys : bs.map name = d.map Prod.fst := map_eq_of_forall₂ (h.imp hR)
      have hkeys' : bs'.map name = (jsDict double d).map Prod.fst :=
        map_eq_of_forall₂ (hmade.imp hR')
      have hnames : bs'.map name = bs.map name := map_eq_of_forall₂ (hcorr.imp hA)
      rw [hkeys', hkeys] at hnames
      exact jsOrdered_of_keys hnames
    exact ⟨hord, (hordered hord).mp hex⟩
  · rintro ⟨hord, hall⟩
    exact (hordered hord).mpr hall

/-! ## What Python makes of the value -/

/-- The elements of `list(v)` pass unchanged. -/
def KeepsElements (double : ℚ → Option ℚ) : Val → Prop
  | .list xs => ∀ x ∈ xs, Kept double x
  | .dict d => JsOrdered d
  | .key _ => True

/-- `dict(v)` passes unchanged. A list is one of pairs, which are lists, objects or strings
themselves, and a later pair replaces an earlier one. -/
def KeepsDict (ε : Type) (double : ℚ → Option ℚ) : Val → Prop
  | .dict d => Kept double (.dict d)
  | .list xs => ∃ d d', (Val.list xs).toDict (ε := ε) = .ok d ∧
      (Val.list (xs.map (Val.js double))).toDict (ε := ε) = .ok d' ∧ PyEq (.dict d) (.dict d')
  | .key _ => True

section Builtins

variable {double : ℚ → Option ℚ} {d : Dict} {v default : Val} {fv : Option Val} {ε : Type}

theorem jsDict_eq_nil : jsDict double d = [] ↔ d = [] := by
  rw [← List.length_eq_zero_iff, ← List.length_eq_zero_iff, jsDict, (jsOrder_perm _).length_eq,
    List.length_map]

theorem Val.isStr_js (v : Val) (s : String) : (v.js double).isStr s = v.isStr s := by
  cases v with
  | key k =>
      cases k with
      | num q =>
          rw [Val.js]
          cases double q <;> rfl
      | _ => rfl
  | list xs => rfl
  | dict d => rfl

/-- What counts as false still does. -/
theorem Val.falsy_js (hzero : double 0 = some 0) (h : v.truthy = false) :
    (v.js double).truthy = false := by
  cases v with
  | key k =>
      cases k with
      | num q =>
          obtain rfl : q = 0 := by simpa [Val.truthy] using h
          rw [Val.js, hzero]
          rfl
      | _ => exact h
  | list xs =>
      obtain rfl : xs = [] := by simpa [Val.truthy] using h
      rfl
  | dict d =>
      obtain rfl : d = [] := by simpa [Val.truthy] using h
      rfl

/-- What counts as true still does, unless it is a number. -/
theorem Val.truthy_js (hnum : ∀ q, v ≠ .key (.num q)) (h : v.truthy = true) :
    (v.js double).truthy = true := by
  cases v with
  | key k =>
      cases k with
      | num q => exact absurd rfl (hnum q)
      | _ => exact h
  | list xs =>
      rw [Val.js_list]
      simpa [Val.truthy] using h
  | dict d =>
      rw [Val.js_dict]
      simpa [Val.truthy, jsDict_eq_nil] using h

theorem orElse_js (hzero : double 0 = some 0) (hdefault : default.js double = default)
    (hnum : ∀ q, orElse fv default ≠ .key (.num q)) :
    orElse (fv.map (Val.js double)) default = (orElse fv default).js double := by
  cases fv with
  | none => exact hdefault.symm
  | some v =>
      rw [Option.map_some]
      cases ht : v.truthy with
      | true =>
          have hv : orElse (some v) default = v := by simp [orElse, ht]
          rw [hv] at hnum ⊢
          simp [orElse, Val.truthy_js hnum ht]
      | false => simp [orElse, ht, Val.falsy_js hzero ht, hdefault]

theorem orElse_js_dict (hzero : double 0 = some 0) (h : orElse fv (.dict []) = .dict d) :
    orElse (fv.map (Val.js double)) (.dict []) = .dict (jsDict double d) := by
  rw [orElse_js hzero rfl (by rw [h]; exact fun _ => nofun), h, Val.js_dict]

/-- `d.get(k, default)` -/
theorem getD_item_js (hd : DistinctKeys d) (k : Key) (hdefault : default.js double = default) :
    (item (jsDict double d) k).getD default = ((item d k).getD default).js double := by
  rw [item_jsDict hd]
  cases item d k with
  | none => exact hdefault.symm
  | some v => rfl

theorem iter_ne_num {xs : List Val} (h : v.iter (ε := ε) = .ok xs) (q : ℚ) :
    v ≠ .key (.num q) := by
  rintro rfl
  cases h

/-- `list(v)` -/
theorem iter_js (hv : IsJson v) {xs : List Val} (h : v.iter (ε := ε) = .ok xs) :
    ∃ xs', (v.js double).iter (ε := ε) = .ok xs' ∧
      (List.Forall₂ PyEq xs xs' ↔ KeepsElements double v) := by
  cases v with
  | key k =>
      cases k with
      | str s =>
          obtain rfl := Except.ok.inj h
          refine ⟨_, rfl, iff_of_true (List.forall₂_same.mpr ?_) trivial⟩
          intro x hx
          obtain ⟨c, -, rfl⟩ := List.mem_map.mp hx
          exact .key (Key.same_refl _)
      | _ => cases h
  | list ys =>
      obtain rfl := Except.ok.inj h
      refine ⟨_, by rw [Val.js_list]; rfl, ?_⟩
      rw [List.forall₂_map_right_iff, List.forall₂_same]
      cases hv with
      | list hall => exact forall₂_congr fun x hx => pyEq_js_iff (hall x hx)
  | dict d =>
      obtain rfl := Except.ok.inj h
      refine ⟨_, by rw [Val.js_dict]; rfl, ?_⟩
      cases hv with
      | dict hd hkeys _ =>
          constructor
          · intro hall
            rw [List.forall₂_map_left_iff, List.forall₂_map_right_iff] at hall
            -- the keys are strings, so equal ones are the same
            have hsame : List.Forall₂ (fun e e' => e'.1 = e.1) d (jsDict double d) := by
              refine ((List.forall₂_and_left _ _).mpr ⟨hkeys, hall⟩).imp ?_
              rintro ⟨k, v⟩ ⟨k', v'⟩ ⟨hk, heq⟩
              obtain ⟨s, rfl⟩ : ∃ s, k = .str s := by
                cases k <;> simp_all [Key.string?]
              exact Val.key.inj (pyEq_str_iff.mp heq)
            exact jsOrdered_of_keys (map_eq_of_forall₂ hsame)
          · intro hord
            rw [jsDict_of_jsOrdered hord, List.map_map, List.forall₂_map_left_iff,
              List.forall₂_map_right_iff, List.forall₂_same]
            exact fun e _ => .key (Key.same_refl _)

/-- A string that is not empty is no sequence of pairs. -/
theorem toDict_key {k : Key} (ht : (Val.key k).truthy = true) :
    (Val.key k).toDict (ε := ε) ≠ .ok d := by
  intro h
  cases k with
  | str s =>
      have hs : s ≠ "" := by simpa [Val.truthy] using ht
      obtain ⟨c, cs, hcs⟩ := List.exists_cons_of_ne_nil (mt String.toList_eq_nil_iff.mp hs)
      simp [Val.toDict, Val.iter, hcs, Val.update, Val.pair] at h
  | _ => cases h

/-- `dict(v or {})` -/
theorem toDict_js (hzero : double 0 = some 0) (hv : IsJson v)
    (h : (orElse (some v) (.dict [])).toDict (ε := ε) = .ok d) :
    (∃ d', (orElse (some (v.js double)) (.dict [])).toDict (ε := ε) = .ok d' ∧
      PyEq (.dict d) (.dict d')) ↔ KeepsDict ε double v := by
  cases v with
  | key k =>
      refine iff_of_true ?_ trivial
      cases ht : (Val.key k).truthy with
      | true =>
          rw [orElse, if_pos ht] at h
          exact absurd h (toDict_key ht)
      | false =>
          simp only [orElse, ht, Bool.false_eq_true, if_false] at h
          obtain rfl := Except.ok.inj h
          simp only [orElse, Val.falsy_js hzero ht, Bool.false_eq_true, if_false]
          exact ⟨[], rfl, .dict .nil .nil⟩
  | dict items =>
      rw [orElse_dict] at h
      obtain rfl := Except.ok.inj h
      rw [Val.js_dict, orElse_dict]
      show (∃ d', Except.ok (jsDict double items) = .ok d' ∧ _) ↔ Kept double (.dict items)
      rw [← pyEq_js_iff hv, Val.js_dict]
      constructor
      · rintro ⟨d', hd', heq⟩
        rwa [Except.ok.inj hd']
      · exact fun heq => ⟨_, rfl, heq⟩
  | list xs =>
      -- `[] or {}` is not the list, but the dict is the same
      have hlist : ∀ ys : List Val, (orElse (some (.list ys)) (.dict [])).toDict (ε := ε)
          = (Val.list ys).toDict := by
        intro ys
        cases ys <;> rfl
      rw [hlist] at h
      rw [Val.js_list, hlist]
      constructor
      · rintro ⟨d', hd', heq⟩
        exact ⟨d, d', h, hd', heq⟩
      · rintro ⟨d₀, d', hd₀, hd', heq⟩
        obtain rfl := Except.ok.inj (h.symm.trans hd₀)
        exact ⟨d', hd', heq⟩

end Builtins

end PyValue
