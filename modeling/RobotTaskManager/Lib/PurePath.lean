import Mathlib.Data.List.Basic
import Mathlib.Data.String.Basic

set_option autoImplicit false

/-! # POSIX paths

What `pathlib.PurePosixPath` makes of a string: a root and the parts between the slashes, without
the empty ones and the single dots. Two paths are equal when they have the same root and parts. A
path object keeps the string it was made from, and `/` joins strings (`join`); `parse_join` says
that joining a name to a path adds one part to it, whatever slashes the string ends with.
-/

namespace PurePath

/-! ## Parsing -/

/-- The root of a path: POSIX leaves the meaning of two slashes to the implementation. -/
inductive Root
  | none
  | slash
  | slashes
  deriving DecidableEq

/-- A string that can stand between the slashes of a path. -/
def Proper (part : String) : Prop := part ≠ "" ∧ part ≠ "." ∧ '/' ∉ part.toList

theorem Proper.append {part suffix : String} (h : Proper part) (hne : suffix ≠ "")
    (hslash : '/' ∉ suffix.toList) : Proper (part ++ suffix) := by
  have hpart : 0 < part.toList.length := List.length_pos_iff.mpr (by simpa using h.1)
  have hsuffix : 0 < suffix.toList.length := List.length_pos_iff.mpr (by simpa using hne)
  have hlen : (part ++ suffix).toList.length = part.toList.length + suffix.toList.length := by
    rw [String.toList_append, List.length_append]
  refine ⟨fun hempty => ?_, fun hdot => ?_, ?_⟩
  · rw [hempty, String.toList_empty, List.length_nil] at hlen
    omega
  · have hone : (part ++ suffix).toList.length = 1 := by rw [hdot]; rfl
    omega
  · rw [String.toList_append, List.mem_append, not_or]
    exact ⟨h.2.2, hslash⟩

/-- A parsed path. -/
@[ext] structure Path where
  root : Root
  tail : List String
  proper : ∀ part ∈ tail, Proper part

/-- `posixpath.splitroot`, without the drive, which is always empty. -/
def splitroot : List Char → Root × List Char
  | '/' :: '/' :: '/' :: cs => (.slash, '/' :: '/' :: cs)
  | '/' :: '/' :: cs => (.slashes, cs)
  | '/' :: cs => (.slash, cs)
  | cs => (.none, cs)

/-- The parts of a path without root. -/
def parts (cs : List Char) : List String :=
  ((cs.splitOn '/').map String.ofList).filter fun part => part ≠ "" ∧ part ≠ "."

theorem not_mem_of_mem_splitOn {a : Char} {cs ds : List Char} (h : ds ∈ cs.splitOn a) :
    a ∉ ds := by
  induction cs generalizing ds with
  | nil =>
      rw [List.splitOn_nil, List.mem_singleton] at h
      rw [h]
      exact List.not_mem_nil
  | cons c cs ih =>
      rw [List.splitOn_cons_eq_if_modifyHead] at h
      by_cases hc : c = a
      · rw [if_pos (beq_iff_eq.mpr hc), List.mem_cons] at h
        cases h with
        | inl h => rw [h]; exact List.not_mem_nil
        | inr h => exact ih h
      · rw [if_neg (by simpa using hc)] at h
        obtain ⟨es, ess, hsplit⟩ := List.exists_cons_of_ne_nil (List.splitOn_ne_nil a cs)
        rw [hsplit, List.modifyHead_cons, List.mem_cons] at h
        cases h with
        | inl h =>
            have hes : a ∉ es := ih (hsplit ▸ List.mem_cons_self)
            rw [h, List.mem_cons, not_or]
            exact ⟨fun h => hc h.symm, hes⟩
        | inr h => exact ih (hsplit ▸ List.mem_cons_of_mem es h)

theorem proper_of_mem_parts {cs : List Char} {part : String} (h : part ∈ parts cs) :
    Proper part := by
  obtain ⟨hmem, hne⟩ := List.mem_filter.mp h
  obtain ⟨ds, hds, rfl⟩ := List.mem_map.mp hmem
  obtain ⟨hempty, hdot⟩ := of_decide_eq_true hne
  refine ⟨hempty, hdot, ?_⟩
  rw [String.toList_ofList]
  exact not_mem_of_mem_splitOn hds

theorem parts_append_slash (cs ds : List Char) :
    parts (cs ++ '/' :: ds) = parts cs ++ parts ds := by
  rw [parts, List.splitOn_append_cons_self, List.map_append, List.filter_append, parts, parts]

theorem parts_nil : parts [] = [] := by decide

theorem parts_of_proper {part : String} (h : Proper part) : parts part.toList = [part] := by
  rw [parts, List.splitOn_eq_singleton h.2.2, List.map_singleton, String.ofList_toList]
  exact List.filter_cons_of_pos (decide_eq_true ⟨h.1, h.2.1⟩)

/-- `_parse_path` -/
def parse (s : String) : Path where
  root := (splitroot s.toList).1
  tail := parts (splitroot s.toList).2
  proper := fun _ => proper_of_mem_parts

/-! ## Joining -/

/-- `posixpath.join` -/
def join (a b : String) : String :=
  if b.toList.head? = some '/' then b
  else if a = "" ∨ a.toList.getLast? = some '/' then a ++ b
  else a ++ "/" ++ b

namespace Path

/-- The path with one more part. -/
def child (p : Path) (part : String) (h : Proper part) : Path where
  root := p.root
  tail := p.tail ++ [part]
  proper := by
    intro q hq
    rw [List.mem_append, List.mem_singleton] at hq
    cases hq with
    | inl hq => exact p.proper q hq
    | inr hq => exact hq ▸ h

/-- `.parent` -/
def parent (p : Path) : Path where
  root := p.root
  tail := p.tail.dropLast
  proper := fun part hpart => p.proper part ((List.dropLast_sublist _).subset hpart)

/-- `.name` -/
def name (p : Path) : String := p.tail.getLast?.getD ""

variable {p : Path} {part : String} {h : Proper part}

theorem child_name : (p.child part h).name = part := by
  rw [name, child, List.getLast?_concat, Option.getD_some]

theorem child_parent : (p.child part h).parent = p := by
  rw [parent, child]
  simp only [List.dropLast_concat]

/-- `p` is an entry of the directory `dir`. -/
def IsChildOf (p dir : Path) : Prop := p.parent = dir ∧ p ≠ dir ∧ p.name ≠ ".."

theorem child_isChildOf (hup : part ≠ "..") : (p.child part h).IsChildOf p := by
  refine ⟨child_parent, fun heq => ?_, by rwa [child_name]⟩
  have htail : (p.child part h).tail.length = p.tail.length := by rw [heq]
  rw [child, List.length_append, List.length_singleton] at htail
  omega

end Path

/-- What is behind the root is a suffix of the string. -/
theorem splitroot_suffix (cs : List Char) : (splitroot cs).2 <:+ cs := by
  fun_cases splitroot cs with
  | case1 cs => exact List.suffix_cons _ _
  | case2 cs _ => exact ⟨['/', '/'], rfl⟩
  | case3 cs _ _ => exact List.suffix_cons _ _
  | case4 _ _ _ => exact List.suffix_rfl

/-- Without a slash in front there is no root. -/
theorem splitroot_of_head {cs : List Char} (h : cs.head? ≠ some '/') :
    splitroot cs = (.none, cs) := by
  cases cs with
  | nil => rfl
  | cons c cs =>
      have hc : c ≠ '/' := fun hc => h (by rw [hc]; rfl)
      rw [splitroot]
      all_goals simp [hc]

/-- With one slash in front the root is that slash. -/
theorem splitroot_slash {cs : List Char} (h : cs.head? ≠ some '/') :
    splitroot ('/' :: cs) = (.slash, cs) := by
  cases cs with
  | nil => rfl
  | cons c cs =>
      have hc : c ≠ '/' := fun hc => h (by rw [hc]; rfl)
      rw [splitroot]
      all_goals simp [hc]

/-- With two slashes, but not three, the root is the two slashes. -/
theorem splitroot_slashes {cs : List Char} (h : cs.head? ≠ some '/') :
    splitroot ('/' :: '/' :: cs) = (.slashes, cs) := by
  cases cs with
  | nil => rfl
  | cons c cs =>
      have hc : c ≠ '/' := fun hc => h (by rw [hc]; rfl)
      rw [splitroot]
      simp [hc]

/-- Characters that are added behind do not change the root, unless they lengthen the slashes it
consists of. -/
theorem splitroot_append {cs ds : List Char} (hne : cs ≠ [])
    (h : cs.getLast? = some '/' → ds.head? ≠ some '/') :
    splitroot (cs ++ ds) = ((splitroot cs).1, (splitroot cs).2 ++ ds) := by
  cases cs with
  | nil => exact absurd rfl hne
  | cons c cs =>
      by_cases hc : c = '/'
      · subst hc
        cases cs with
        | nil => exact splitroot_slash (h rfl)
        | cons d cs =>
            by_cases hd : d = '/'
            · subst hd
              cases cs with
              | nil => exact splitroot_slashes (h rfl)
              | cons e cs =>
                  by_cases he : e = '/'
                  · subst he
                    rfl
                  · rw [splitroot_slashes (by simpa using he)]
                    exact splitroot_slashes (by simpa using he)
            · rw [splitroot_slash (by simpa using hd)]
              exact splitroot_slash (by simpa using hd)
      · have hhead : (c :: cs).head? ≠ some '/' := by simpa using hc
        rw [splitroot_of_head hhead]
        exact splitroot_of_head (by simpa using hc)

/-- Behind a slash, or at the start, a new part begins. -/
theorem parts_append {cs ds : List Char} (h : cs = [] ∨ cs.getLast? = some '/') :
    parts (cs ++ ds) = parts cs ++ parts ds := by
  cases h with
  | inl h => rw [h, parts_nil, List.nil_append, List.nil_append]
  | inr h =>
      obtain ⟨es, rfl⟩ := List.getLast?_eq_some_iff.mp h
      rw [List.append_assoc, List.singleton_append, parts_append_slash, parts_append_slash,
        parts_nil, List.append_nil]

theorem splitroot_getLast {cs : List Char} (h : cs.getLast? = some '/') :
    (splitroot cs).2 = [] ∨ (splitroot cs).2.getLast? = some '/' := by
  obtain ⟨ds, hds⟩ := splitroot_suffix cs
  cases hrel : (splitroot cs).2 with
  | nil => exact Or.inl rfl
  | cons c es =>
      rw [← hds, hrel, List.getLast?_append_of_ne_nil _ (List.cons_ne_nil c es)] at h
      exact Or.inr h

/-- **Joining a name adds one part to the path.** -/
theorem parse_join {part : String} (h : Proper part) (s : String) :
    parse (join s part) = (parse s).child part h := by
  have hhead : part.toList.head? ≠ some '/' := fun hh => h.2.2 (List.mem_of_head? hh)
  rw [join, if_neg hhead]
  by_cases hempty : s = ""
  · rw [if_pos (Or.inl hempty), hempty, String.empty_append]
    ext1
    · show (splitroot part.toList).1 = .none
      rw [splitroot_of_head hhead]
    · show parts (splitroot part.toList).2 = [] ++ [part]
      rw [splitroot_of_head hhead, parts_of_proper h, List.nil_append]
  · have hne : s.toList ≠ [] := by simpa using hempty
    by_cases hlast : s.toList.getLast? = some '/'
    · have hsplit := splitroot_append hne fun _ => hhead
      rw [if_pos (Or.inr hlast)]
      ext1
      · show (splitroot (s ++ part).toList).1 = (splitroot s.toList).1
        rw [String.toList_append, hsplit]
      · show parts (splitroot (s ++ part).toList).2 = parts (splitroot s.toList).2 ++ [part]
        rw [String.toList_append, hsplit, parts_append (splitroot_getLast hlast), parts_of_proper h]
    · have hsplit : splitroot (s.toList ++ '/' :: part.toList) =
          ((splitroot s.toList).1, (splitroot s.toList).2 ++ '/' :: part.toList) :=
        splitroot_append hne fun h => absurd h hlast
      have hstring : (s ++ "/" ++ part).toList = s.toList ++ '/' :: part.toList := by simp
      rw [if_neg (not_or.mpr ⟨hempty, hlast⟩)]
      ext1
      · show (splitroot (s ++ "/" ++ part).toList).1 = (splitroot s.toList).1
        rw [hstring, hsplit]
      · show parts (splitroot (s ++ "/" ++ part).toList).2 = parts (splitroot s.toList).2 ++ [part]
        rw [hstring, hsplit, parts_append_slash, parts_of_proper h]

/-! ## Stems -/

/-- `rfind` of a character, `none` where Python has -1. -/
def rfind (c : Char) (cs : List Char) : Option ℕ :=
  (cs.reverse.findIdx? (· = c)).map (cs.length - 1 - ·)

/-- What `.stem` makes of the name of a path. -/
def stem (name : String) : String :=
  match rfind '.' name.toList with
  | none => name
  | some i =>
      if 0 < i ∧ i < name.toList.length - 1 then String.ofList (name.toList.take i) else name

theorem findIdx?_reverse_of_not_mem {c : Char} {cs : List Char} (h : c ∉ cs) :
    cs.reverse.findIdx? (· = c) = none := by
  rw [List.findIdx?_eq_none_iff]
  intro d hd
  rw [decide_eq_false_iff_not]
  exact fun hdc => h (hdc ▸ List.mem_reverse.mp hd)

theorem rfind_of_not_mem {c : Char} {cs : List Char} (h : c ∉ cs) : rfind c cs = none := by
  rw [rfind, findIdx?_reverse_of_not_mem h, Option.map_none]

theorem rfind_append {c : Char} {cs ds : List Char} (h : c ∉ ds) :
    rfind c (cs ++ c :: ds) = some cs.length := by
  have hrev : (cs ++ c :: ds).reverse = ds.reverse ++ c :: cs.reverse := by simp
  rw [rfind, hrev, List.findIdx?_append, findIdx?_reverse_of_not_mem h, Option.none_or,
    List.findIdx?_cons, if_pos (decide_eq_true rfl), Option.map_some, Option.map_some,
    List.length_append, List.length_cons, List.length_reverse]
  congr 1
  omega

/-- The stem of a name with a suffix. -/
theorem stem_append {base suffix : String} (hbase : base ≠ "") (hsuffix : suffix ≠ "")
    (hdot : '.' ∉ suffix.toList) : stem (base ++ "." ++ suffix) = base := by
  have hlist : (base ++ "." ++ suffix).toList = base.toList ++ '.' :: suffix.toList := by simp
  have hb : 0 < base.toList.length := List.length_pos_iff.mpr (by simpa using hbase)
  have hs : 0 < suffix.toList.length := List.length_pos_iff.mpr (by simpa using hsuffix)
  have hi : base.toList.length < (base.toList ++ '.' :: suffix.toList).length - 1 := by
    rw [List.length_append, List.length_cons]
    omega
  rw [stem, hlist, rfind_append hdot]
  simp only [if_pos (And.intro hb hi)]
  rw [List.take_left, String.ofList_toList]

end PurePath
