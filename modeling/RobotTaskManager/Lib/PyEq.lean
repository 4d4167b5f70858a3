import Mathlib.Algebra.Order.Ring.Unbundled.Rat
import Mathlib.Data.List.Forall2
import Mathlib.Data.List.Perm.Basic
import Mathlib.Data.Set.List
import Mathlib.Data.String.Basic
import RobotTaskManager.Lib.PyValue

set_option autoImplicit false

/-! # Equality of Python values

`v == w`: two dicts are equal if they have equal values under the same keys, in whatever order. What
is equal is equal again after `sorted({…})`.
-/

namespace PyValue

/-! ## Keys -/

/-- The key, with a truth value as the number it is. -/
def Key.norm : Key → Key
  | .bool b => .num (if b then 1 else 0)
  | k => k

@[simp] theorem Key.norm_norm (k : Key) : k.norm.norm = k.norm := by cases k <;> rfl

@[simp] theorem Key.number?_norm (k : Key) : k.norm.number? = k.number? := by cases k <;> rfl

@[simp] theorem Key.string?_norm (k : Key) : k.norm.string? = k.string? := by cases k <;> rfl

theorem Key.same_iff {a b : Key} : a.same b = true ↔ a.norm = b.norm := by
  cases a <;> cases b <;> simp [Key.same, Key.number?, Key.norm]

@[simp] theorem Key.same_norm (a b : Key) : a.norm.same b.norm = a.same b := by
  rw [Bool.eq_iff_iff, Key.same_iff, Key.same_iff, Key.norm_norm, Key.norm_norm]

theorem Key.same_comm (a b : Key) : a.same b = b.same a := by
  rw [Bool.eq_iff_iff, Key.same_iff, Key.same_iff, eq_comm]

theorem Key.same_trans {a b c : Key} (hab : a.same b = true) (hbc : b.same c = true) :
    a.same c = true :=
  Key.same_iff.mpr ((Key.same_iff.mp hab).trans (Key.same_iff.mp hbc))

theorem Key.le_norm (a b : Key) : a.norm.le b.norm = a.le b := by
  simp only [Key.le, Key.number?_norm, Key.string?_norm]

/-! ## Dicts in another order -/

section Dict

variable {α : Type}

theorem DistinctKeys.perm {d d' : List (Key × α)} (h : DistinctKeys d) (hp : d'.Perm d) :
    DistinctKeys d' :=
  hp.symm.pairwise h fun {a b} hab => (b.1.same_comm a.1).trans hab

/-- A dict gives the same values in any order of its keys. -/
theorem item_perm {d d' : List (Key × α)} (h : DistinctKeys d) (hp : d.Perm d') (k : Key) :
    item d' k = item d k := by
  induction hp with
  | nil => rfl
  | cons e _ ih =>
      obtain ⟨k', v⟩ := e
      rw [item, item, ih (List.pairwise_cons.mp h).2]
  | swap e e' rest =>
      obtain ⟨k₁, v₁⟩ := e
      obtain ⟨k₂, v₂⟩ := e'
      have hne : k₂.same k₁ = false := (List.pairwise_cons.mp h).1 _ List.mem_cons_self
      simp only [item]
      by_cases h₁ : k₁.same k = true
      -- then `k₂` is another key
      · have h₂ : ¬ k₂.same k = true := by
          intro h₂
          have hsame := Key.same_trans h₂ ((Key.same_comm k k₁).trans h₁)
          rw [hne] at hsame
          cases hsame
        rw [if_pos h₁, if_neg h₂, if_pos h₁]
      · rw [if_neg h₁, if_neg h₁]
  | trans hp₁ _ ih₁ ih₂ => rw [ih₂ (h.perm hp₁.symm), ih₁ h]

theorem item_map {β : Type} (f : α → β) (d : List (Key × α)) (k : Key) :
    item (d.map fun e => (e.1, f e.2)) k = (item d k).map f := by
  induction d with
  | nil => rfl
  | cons e rest ih =>
      rw [List.map_cons, item, item, ih]
      split <;> rfl

/-- Two items of a dict with the same key are one. -/
theorem DistinctKeys.eq_of_same {d : List (Key × α)} (h : DistinctKeys d) {e e' : Key × α}
    (he : e ∈ d) (he' : e' ∈ d) (hsame : e.1.same e'.1 = true) : e = e' := by
  induction d with
  | nil => cases he
  | cons e₀ rest ih =>
      obtain ⟨hne, hrest⟩ := List.pairwise_cons.mp h
      rcases List.mem_cons.mp he with rfl | hin
      · rcases List.mem_cons.mp he' with rfl | hin'
        · rfl
        · rw [hne e' hin'] at hsame
          cases hsame
      · rcases List.mem_cons.mp he' with rfl | hin'
        · rw [Key.same_comm, hne e hin] at hsame
          cases hsame
        · exact ih hrest hin hin'

end Dict

/-! ## Lists in parallel -/

section Parallel

variable {α β γ : Type} {R S : α → β → Prop} {as : List α} {bs : List β}

theorem exists_mem_of_forall₂ (h : List.Forall₂ R as bs) {a : α} (ha : a ∈ as) :
    ∃ b ∈ bs, R a b := by
  induction h with
  | nil => cases ha
  | @cons a₀ b as bs hab _ ih =>
      rcases List.mem_cons.mp ha with rfl | ha
      · exact ⟨b, List.mem_cons_self, hab⟩
      · obtain ⟨b', hb', h⟩ := ih ha
        exact ⟨b', List.mem_cons_of_mem _ hb', h⟩

theorem map_eq_of_forall₂ {f : α → γ} {g : β → γ}
    (h : List.Forall₂ (fun a b => g b = f a) as bs) : bs.map g = as.map f := by
  induction h with
  | nil => rfl
  | cons hab _ ih => rw [List.map_cons, List.map_cons, hab, ih]

/-- What holds of every pair is a property of the elements of the first list alone. -/
theorem forall₂_iff_forall_mem {P : α → Prop} (h : List.Forall₂ R as bs)
    (hP : ∀ a ∈ as, ∀ b, R a b → (S a b ↔ P a)) : List.Forall₂ S as bs ↔ ∀ a ∈ as, P a := by
  induction h with
  | nil => exact iff_of_true .nil nofun
  | @cons a b as bs hab _ ih =>
      rw [List.forall₂_cons, List.forall_mem_cons, hP a List.mem_cons_self b hab,
        ih fun a ha => hP a (List.mem_cons_of_mem _ ha)]

/-- A list that stands in between is made pair by pair. -/
theorem forall₂_between_iff {P : α → γ → Prop} {Q : β → γ → Prop} (h : List.Forall₂ R as bs) :
    (∃ cs, List.Forall₂ P as cs ∧ List.Forall₂ Q bs cs) ↔
      List.Forall₂ (fun a b => ∃ c, P a c ∧ Q b c) as bs := by
  induction h with
  | nil => exact iff_of_true ⟨[], .nil, .nil⟩ .nil
  | cons _ _ ih =>
      rw [List.forall₂_cons, ← ih]
      constructor
      · rintro ⟨_, hP, hQ⟩
        obtain _ | ⟨hPc, hP⟩ := hP
        obtain _ | ⟨hQc, hQ⟩ := hQ
        exact ⟨⟨_, hPc, hQc⟩, _, hP, hQ⟩
      · rintro ⟨⟨c, hPc, hQc⟩, cs, hP, hQ⟩
        exact ⟨c :: cs, .cons hPc hP, .cons hQc hQ⟩

end Parallel

/-! ## Values -/

mutual

/-- `v == w` -/
inductive PyEq : Val → Val → Prop
  | key {a b : Key} : a.same b = true → PyEq (.key a) (.key b)
  | list {xs ys : List Val} : PyEqList xs ys → PyEq (.list xs) (.list ys)
  | dict {d d₁ d' : Dict} : d.Perm d₁ → PyEqItems d₁ d' → PyEq (.dict d) (.dict d')

inductive PyEqList : List Val → List Val → Prop
  | nil : PyEqList [] []
  | cons {x y : Val} {xs ys : List Val} : PyEq x y → PyEqList xs ys →
      PyEqList (x :: xs) (y :: ys)

inductive PyEqItems : Dict → Dict → Prop
  | nil : PyEqItems [] []
  | cons {k k' : Key} {v w : Val} {d d' : Dict} : k.same k' = true → PyEq v w →
      PyEqItems d d' → PyEqItems ((k, v) :: d) ((k', w) :: d')

end

section Eq

variable {xs ys : List Val} {d d' : Dict} {a b : Key} {v w : Val}

theorem pyEqList_iff : PyEqList xs ys ↔ List.Forall₂ PyEq xs ys := by
  constructor
  · intro h
    induction xs generalizing ys with
    | nil =>
        cases h
        exact .nil
    | cons x xs ih =>
        obtain _ | ⟨hx, hxs⟩ := h
        exact .cons hx (ih hxs)
  · intro h
    induction h with
    | nil => exact .nil
    | cons hx _ ih => exact .cons hx ih

theorem pyEqItems_iff : PyEqItems d d' ↔
    List.Forall₂ (fun e e' => e.1.same e'.1 = true ∧ PyEq e.2 e'.2) d d' := by
  constructor
  · intro h
    induction d generalizing d' with
    | nil =>
        cases h
        exact .nil
    | cons e d ih =>
        obtain _ | ⟨hk, hv, hd⟩ := h
        exact .cons ⟨hk, hv⟩ (ih hd)
  · intro h
    induction h with
    | nil => exact .nil
    | cons he _ ih => exact .cons he.1 he.2 ih

theorem pyEq_list_iff : PyEq (.list xs) (.list ys) ↔ List.Forall₂ PyEq xs ys := by
  rw [← pyEqList_iff]
  exact ⟨fun h => by cases h; assumption, .list⟩

theorem pyEq_dict_iff : PyEq (.dict d) (.dict d') ↔ ∃ d₁, d.Perm d₁ ∧
    List.Forall₂ (fun e e' => e.1.same e'.1 = true ∧ PyEq e.2 e'.2) d₁ d' := by
  simp only [← pyEqItems_iff]
  constructor
  · intro h
    obtain _ | _ | ⟨hp, hd⟩ := h
    exact ⟨_, hp, hd⟩
  · rintro ⟨d₁, hp, hd⟩
    exact .dict hp hd

theorem pyEq_key_iff : PyEq (.key a) w ↔ ∃ b, w = .key b ∧ a.same b = true := by
  constructor
  · intro h
    obtain ⟨h⟩ := h
    exact ⟨_, rfl, h⟩
  · rintro ⟨b, rfl, h⟩
    exact .key h

/-- Equal dicts have the same keys. -/
theorem exists_key_iff {p : Key → Prop} (hp : ∀ a b, a.same b = true → (p a ↔ p b))
    (h : PyEq (.dict d) (.dict d')) : (∃ e ∈ d, p e.1) ↔ ∃ e ∈ d', p e.1 := by
  obtain ⟨d₁, hperm, hitems⟩ := pyEq_dict_iff.mp h
  simp only [hperm.mem_iff]
  clear hperm h
  induction hitems with
  | nil => simp
  | cons he _ ih => rw [List.exists_mem_cons_iff, List.exists_mem_cons_iff, ih, hp _ _ he.1]

@[simp] theorem pyEq_str_iff {s : String} : PyEq (.str s) w ↔ w = .str s := by
  rw [pyEq_key_iff]
  constructor
  · rintro ⟨b, rfl, h⟩
    cases b <;> simp_all [Key.same, Key.number?]
  · rintro rfl
    exact ⟨_, rfl, Key.same_refl _⟩

end Eq

/-! ## Sorting equal sets -/

section Sorting

variable {ε : Type}

theorem map_norm_distinct (ks : List Key) :
    (distinct ks).map Key.norm = distinct (ks.map Key.norm) := by
  have hfold : ∀ acc : List Key,
      (ks.foldl addKey acc).map Key.norm = (ks.map Key.norm).foldl addKey (acc.map Key.norm) := by
    induction ks with
    | nil => exact fun _ => rfl
    | cons k rest ih =>
        intro acc
        rw [List.foldl_cons, List.map_cons, List.foldl_cons, ih]
        congr 1
        rw [addKey, addKey, List.any_map]
        simp only [Function.comp_def, Key.same_norm]
        split <;> simp
  exact hfold []

/-- The elements of a set of normal keys: those that were added, each once. -/
theorem distinct_norm {ks : List Key} (h : ∀ k ∈ ks, k.norm = k) :
    (distinct ks).Nodup ∧ ∀ k, k ∈ distinct ks ↔ k ∈ ks := by
  have hfold : ∀ acc : List Key, (∀ k ∈ acc, k.norm = k) → acc.Nodup →
      (ks.foldl addKey acc).Nodup ∧ ∀ k, k ∈ ks.foldl addKey acc ↔ k ∈ acc ∨ k ∈ ks := by
    induction ks with
    | nil => exact fun acc _ hnd => ⟨hnd, by simp⟩
    | cons k₀ rest ih =>
        intro acc hacc hnd
        obtain ⟨hk₀, hrest⟩ := List.forall_mem_cons.mp h
        have hany : acc.any (·.same k₀) = true ↔ k₀ ∈ acc := by
          rw [List.any_eq_true]
          constructor
          · rintro ⟨k, hk, hsame⟩
            rw [Key.same_iff, hacc k hk, hk₀] at hsame
            exact hsame ▸ hk
          · exact fun hk => ⟨k₀, hk, Key.same_refl _⟩
        rw [List.foldl_cons, addKey]
        by_cases hin : k₀ ∈ acc
        · rw [if_pos (hany.mpr hin)]
          obtain ⟨hnd', hmem⟩ := ih hrest acc hacc hnd
          refine ⟨hnd', fun k => ?_⟩
          rw [hmem, List.mem_cons]
          constructor
          · exact Or.imp_right Or.inr
          · rintro (hk | rfl | hk)
            · exact Or.inl hk
            · exact Or.inl hin
            · exact Or.inr hk
        · rw [if_neg fun hs => hin (hany.mp hs)]
          have hacc' : ∀ k ∈ acc ++ [k₀], k.norm = k := by
            intro k hk
            rcases List.mem_append.mp hk with hk | hk
            · exact hacc k hk
            · rwa [List.mem_singleton.mp hk]
          obtain ⟨hnd', hmem⟩ := ih hrest (acc ++ [k₀]) hacc'
            (List.nodup_append.mpr ⟨hnd, List.nodup_singleton _, by
              rintro k hk k' hk' rfl
              exact hin (List.mem_singleton.mp hk' ▸ hk)⟩)
          refine ⟨hnd', fun k => ?_⟩
          rw [hmem, List.mem_append, List.mem_singleton, List.mem_cons, or_assoc]
  obtain ⟨hnd, hmem⟩ := hfold [] (List.forall_mem_nil _) List.nodup_nil
  exact ⟨hnd, fun k => by rw [distinct, hmem]; simp⟩

theorem sortedKeys_norm (ks : List Key) : sortedKeys (ε := ε) (ks.map Key.norm)
    = (sortedKeys (ε := ε) ks).map (List.map Key.norm) := by
  have hsort : (ks.map Key.norm).insertionSort (fun a b => a.le b) =
      (ks.insertionSort fun a b => a.le b).map Key.norm :=
    (List.map_insertionSort _ _ Key.norm ks fun a _ b _ => by rw [Key.le_norm]).symm
  simp only [sortedKeys, List.length_map, List.all_map, Function.comp_def, Key.string?_norm,
    Key.number?_norm, hsort]
  split <;> rfl

/-- Keys of one kind, which `Key.le` orders linearly, sort to the same list in any order. -/
theorem insertionSort_eq_of_perm {α : Type} [LinearOrder α] {f : α → Key}
    (hf : Function.Injective f) (hle : ∀ a b, (f a).le (f b) = true ↔ a ≤ b) {ks ks' : List Key}
    (hp : ks.Perm ks') (hks : ∀ k ∈ ks, ∃ a, f a = k) :
    ks.insertionSort (fun a b => a.le b) = ks'.insertionSort (fun a b => a.le b) := by
  have hrange : ∀ l : List Key, (∀ k ∈ l, ∃ a, f a = k) → ∃ as : List α, as.map f = l := by
    intro l hl
    have hmem : l ∈ Set.range (List.map f) := by
      rw [Set.range_list_map]
      exact hl
    exact hmem
  obtain ⟨as, rfl⟩ := hrange ks hks
  obtain ⟨bs, rfl⟩ := hrange ks' fun k hk => hks k (hp.mem_iff.mpr hk)
  have hperm : as.Perm bs := (List.map_perm_map_iff hf).mp hp
  have hsort : ∀ cs : List α, (cs.map f).insertionSort (fun a b => a.le b)
      = (cs.insertionSort (· ≤ ·)).map f := fun cs =>
    (List.map_insertionSort _ _ f cs fun a _ b _ => (hle a b).symm).symm
  rw [hsort, hsort, List.Perm.eq_of_pairwise' (List.pairwise_insertionSort _ as)
    (List.pairwise_insertionSort _ bs) (((List.perm_insertionSort _ as).trans hperm).trans
      (List.perm_insertionSort _ bs).symm)]

/-- Sorting forgets in which order the elements came. -/
theorem sortedKeys_perm {ks ks' : List Key} (hp : ks.Perm ks') (h : ∀ k ∈ ks, k.norm = k) :
    sortedKeys (ε := ε) ks' = sortedKeys ks := by
  have hcond : (ks'.length ≤ 1 ∨ (ks'.all (·.string?.isSome)) ∨ (ks'.all (·.number?.isSome))) ↔
      (ks.length ≤ 1 ∨ (ks.all (·.string?.isSome)) ∨ (ks.all (·.number?.isSome))) := by
    simp only [hp.length_eq, List.all_eq_true, hp.mem_iff]
  unfold sortedKeys
  by_cases hkind : ks.length ≤ 1 ∨ (ks.all (·.string?.isSome)) ∨ (ks.all (·.number?.isSome))
  · rw [if_pos hkind, if_pos (hcond.mpr hkind)]
    congr 1
    symm
    rcases hkind with hlen | hstr | hnum
    · cases ks with
      | nil => rw [List.nil_perm.mp hp]
      | cons k rest =>
          obtain rfl : rest = [] := List.length_eq_zero_iff.mp (by simpa using hlen)
          rw [List.singleton_perm.mp hp]
    · refine insertionSort_eq_of_perm (f := Key.str) (fun _ _ => Key.str.inj) ?_ hp ?_
      · intro a b
        simp [Key.le, Key.number?, Key.string?]
      · intro k hk
        have hsome := List.all_eq_true.mp hstr k hk
        cases k <;> simp_all [Key.string?]
    · refine insertionSort_eq_of_perm (f := Key.num) (fun _ _ => Key.num.inj) ?_ hp ?_
      · intro a b
        simp [Key.le, Key.number?]
      · intro k hk
        have hsome := List.all_eq_true.mp hnum k hk
        have hnorm := h k hk
        cases k <;> simp_all [Key.number?, Key.norm]
  · rw [if_neg hkind, if_neg fun hk => hkind (hcond.mp hk)]

theorem mapM_hash_ok {vs : List Val} {ks : List Key} :
    vs.mapM (Val.hash (ε := ε)) = .ok ks ↔ vs = ks.map Val.key := by
  induction vs generalizing ks with
  | nil =>
      rw [List.mapM_nil]
      constructor
      · intro h
        obtain rfl := Except.ok.inj h
        rfl
      · intro h
        rw [List.map_eq_nil_iff.mp h.symm]
        rfl
  | cons v rest ih =>
      rw [List.mapM_cons, bind_ok_iff]
      constructor
      · rintro ⟨k, hk, h⟩
        obtain ⟨ks', hks', h⟩ := bind_ok_iff.mp h
        obtain rfl := Except.ok.inj h
        cases v with
        | key k' =>
            obtain rfl := Except.ok.inj hk
            rw [ih.mp hks']
            rfl
        | list xs => cases hk
        | dict d => cases hk
      · intro h
        cases ks with
        | nil => cases h
        | cons k ks =>
            obtain ⟨rfl, hrest⟩ := List.cons.inj h
            refine ⟨k, rfl, ?_⟩
            rw [ih.mpr hrest]
            rfl

/-- **Equal values sort to equal lists**, in whatever order they are added to the set. -/
theorem sortedSet_eq {vs vs₁ vs' : List Val} {ks : List Key} (h : sortedSet (ε := ε) vs = .ok ks)
    (hp : vs.Perm vs₁) (heq : List.Forall₂ PyEq vs₁ vs') :
    ∃ ks', sortedSet (ε := ε) vs' = .ok ks' ∧
      List.Forall₂ (fun a b => a.same b = true) ks ks' := by
  obtain ⟨elems, helems, hks⟩ := bind_ok_iff.mp h
  obtain rfl := mapM_hash_ok.mp helems
  -- the hashes of the other values are those of `vs` again, in another order
  obtain ⟨elems₁, hp₁, rfl⟩ : ∃ elems₁ : List Key,
      elems.Perm elems₁ ∧ elems₁.map Val.key = vs₁ := by
    have hmem : vs₁ ∈ Set.range (List.map Val.key) := by
      rw [Set.range_list_map]
      intro v hv
      obtain ⟨k, -, hk⟩ := List.mem_map.mp (hp.mem_iff.mpr hv)
      exact ⟨k, hk⟩
    obtain ⟨elems₁, rfl⟩ := hmem
    exact ⟨elems₁, (List.map_perm_map_iff fun _ _ => Val.key.inj).mp hp, rfl⟩
  obtain ⟨elems', rfl, hsame⟩ : ∃ elems' : List Key, vs' = elems'.map Val.key ∧
      elems₁.map Key.norm = elems'.map Key.norm := by
    clear hp hp₁
    induction elems₁ generalizing vs' with
    | nil =>
        cases heq
        exact ⟨[], rfl, rfl⟩
    | cons k rest ih =>
        obtain _ | ⟨hk, hrest⟩ := heq
        obtain ⟨k', rfl, hkk'⟩ := pyEq_key_iff.mp hk
        obtain ⟨elems', rfl, hsame⟩ := ih hrest
        refine ⟨k' :: elems', rfl, ?_⟩
        rw [List.map_cons, List.map_cons, Key.same_iff.mp hkk', hsame]
  have hnorm : ∀ l : List Key, ∀ k ∈ l.map Key.norm, k.norm = k := by
    intro l k hk
    obtain ⟨k₀, -, rfl⟩ := List.mem_map.mp hk
    exact Key.norm_norm k₀
  have hsets : (distinct (elems.map Key.norm)).Perm (distinct (elems'.map Key.norm)) := by
    rw [← hsame]
    refine (List.perm_ext_iff_of_nodup (distinct_norm (hnorm elems)).1
      (distinct_norm (hnorm elems₁)).1).mpr fun k => ?_
    rw [(distinct_norm (hnorm elems)).2, (distinct_norm (hnorm elems₁)).2,
      (hp₁.map Key.norm).mem_iff]
  have hnormal : ∀ k ∈ distinct (elems.map Key.norm), k.norm = k := fun k hk =>
    hnorm elems k (((distinct_norm (hnorm elems)).2 k).mp hk)
  have hsorted : (sortedKeys (ε := ε) (distinct elems')).map (List.map Key.norm) =
      .ok (ks.map Key.norm) := by
    rw [← sortedKeys_norm, map_norm_distinct, sortedKeys_perm hsets hnormal, ← map_norm_distinct,
      sortedKeys_norm, hks]
    rfl
  cases hks' : sortedKeys (ε := ε) (distinct elems') with
  | error e =>
      rw [hks'] at hsorted
      cases hsorted
  | ok ks' =>
      rw [hks'] at hsorted
      have hmap : ks'.map Key.norm = ks.map Key.norm := Except.ok.inj hsorted
      refine ⟨ks', ?_, ?_⟩
      · rw [sortedSet, mapM_hash_ok.mpr rfl, ok_bind, hks']
      · have hall : List.Forall₂ (· = ·) (ks.map Key.norm) (ks'.map Key.norm) :=
          List.forall₂_eq_eq_eq ▸ hmap.symm
        rw [List.forall₂_map_left_iff, List.forall₂_map_right_iff] at hall
        exact hall.imp fun a b hab => Key.same_iff.mpr hab

end Sorting

end PyValue
