import TsEpistle.Json.Parsing

/-! When `canonicalJson` depends on the value alone. -/

namespace TsEpistle.Json
open Library List

variable {ν : Type} {numbers : Numbers ν} {localeCompare : JsString → JsString → Int}

/-- One value: entries change places. -/
inductive Same : JsonValue ν → JsonValue ν → Prop
  | refl (value : JsonValue ν) : Same value value
  | trans {first second third : JsonValue ν} (h : Same first second) (h' : Same second third) : Same first third
  | item {before after : List (JsonValue ν)} {item item' : JsonValue ν} (h : Same item item') :
      Same (.array (before ++ item :: after)) (.array (before ++ item' :: after))
  | entry {before after : List (JsString × JsonValue ν)} {key : JsString} {value value' : JsonValue ν}
      (h : Same value value') :
      Same (.object (before ++ (key, value) :: after)) (.object (before ++ (key, value') :: after))
  | order {entries entries' : List (JsString × JsonValue ν)} (h : entries.Perm entries') :
      Same (.object entries) (.object entries')

/-- A comparison of strings orders them; it may take different strings for equal. -/
structure Collation (localeCompare : JsString → JsString → Int) : Prop where
  swap : ∀ left right, localeCompare right left ≤ 0 ↔ 0 ≤ localeCompare left right
  trans : ∀ first second third, localeCompare first second ≤ 0 → localeCompare second third ≤ 0 →
    localeCompare first third ≤ 0

/-- No object has different keys, other than indices, that compare as equal. -/
inductive Untied (localeCompare : JsString → JsString → Int) : JsonValue ν → Prop
  | null : Untied localeCompare .null
  | boolean (value : Bool) : Untied localeCompare (.boolean value)
  | number (value : ν) : Untied localeCompare (.number value)
  | string (value : JsString) : Untied localeCompare (.string value)
  | array {items : List (JsonValue ν)} (h : ∀ item ∈ items, Untied localeCompare item) :
      Untied localeCompare (.array items)
  | object {entries : List (JsString × JsonValue ν)}
      (hkeys : ∀ left ∈ entries, ∀ right ∈ entries, indexOf left.1 = none → indexOf right.1 = none →
        localeCompare left.1 right.1 = 0 → left.1 = right.1)
      (h : ∀ entry ∈ entries, Untied localeCompare entry.2) :
      Untied localeCompare (.object entries)

theorem JsonValue.induct {P : JsonValue ν → Prop} (hnull : P .null) (hboolean : ∀ value, P (.boolean value))
    (hnumber : ∀ value, P (.number value)) (hstring : ∀ value, P (.string value))
    (harray : ∀ items, (∀ item ∈ items, P item) → P (.array items))
    (hobject : ∀ entries, (∀ entry ∈ entries, P entry.2) → P (.object entries)) (value : JsonValue ν) : P value :=
  @JsonValue.rec ν P (fun items => ∀ item ∈ items, P item) (fun entries => ∀ entry ∈ entries, P entry.2)
    (fun entry => P entry.2) hnull hboolean hnumber hstring harray hobject (by simp)
    (fun item items h hs => forall_mem_cons.mpr ⟨h, hs⟩) (by simp)
    (fun entry entries h hs => forall_mem_cons.mpr ⟨h, hs⟩) (fun _ _ h => h) value

/-! ## Sorted values -/

section
variable (localeCompare)

mutual
/-- The value that is written: every object has its entries in the order of `canonicalJson`. -/
def sorted : JsonValue ν → JsonValue ν
  | .null => .null
  | .boolean value => .boolean value
  | .number value => .number value
  | .string value => .string value
  | .array items => .array (sortedItems items)
  | .object entries => .object (sortKeys localeCompare (ownOrder (sortedEntries entries)))

def sortedItems : List (JsonValue ν) → List (JsonValue ν)
  | [] => []
  | item :: items => sorted item :: sortedItems items

def sortedEntries : List (JsString × JsonValue ν) → List (JsString × JsonValue ν)
  | [] => []
  | (key, value) :: entries => (key, sorted value) :: sortedEntries entries
end

end

/-- Keys stay and values change. -/
def onValue {β γ : Type} (f : β → γ) (entry : JsString × β) : JsString × γ := (entry.1, f entry.2)

theorem sortedItems_eq (items : List (JsonValue ν)) :
    sortedItems localeCompare items = items.map (sorted localeCompare) := by
  induction items with
  | nil => rfl
  | cons item items ih => rw [sortedItems, ih, map_cons]

theorem sortedEntries_eq (entries : List (JsString × JsonValue ν)) :
    sortedEntries localeCompare entries = entries.map (onValue (sorted localeCompare)) := by
  induction entries with
  | nil => rfl
  | cons entry entries ih =>
    rw [sortedEntries, ih, map_cons]
    rfl

theorem canonicalItems_eq (items : List (JsonValue ν)) :
    canonicalItems numbers localeCompare items = items.map (canonicalJson numbers localeCompare) := by
  induction items with
  | nil => rfl
  | cons item items ih => rw [canonicalItems, ih, map_cons]

theorem canonicalEntries_eq (entries : List (JsString × JsonValue ν)) :
    canonicalEntries numbers localeCompare entries = entries.map (onValue (canonicalJson numbers localeCompare)) := by
  induction entries with
  | nil => rfl
  | cons entry entries ih =>
    rw [canonicalEntries, ih, map_cons]
    rfl

theorem ownOrder_map {β γ : Type} (f : β → γ) (entries : List (JsString × β)) :
    ownOrder (entries.map (onValue f)) = (ownOrder entries).map (onValue f) := by
  unfold ownOrder
  rw [map_append, filter_map, filter_map]
  congr 1
  refine (map_insertionSort _ _ _ _ fun left _ right _ => ?_).symm
  exact Iff.rfl

theorem sortKeys_map {β γ : Type} (f : β → γ) (entries : List (JsString × β)) :
    sortKeys localeCompare (entries.map (onValue f)) = (sortKeys localeCompare entries).map (onValue f) := by
  unfold sortKeys
  refine (map_insertionSort _ _ _ _ fun left _ right _ => ?_).symm
  exact Iff.rfl

/-- `canonicalJson` writes the sorted value. -/
theorem canonicalJson_eq (value : JsonValue ν) :
    canonicalJson numbers localeCompare value = write numbers (sorted localeCompare value) := by
  induction value using JsonValue.induct with
  | hnull | hboolean | hnumber | hstring => rfl
  | harray items ih =>
    rw [canonicalJson, sorted, write, canonicalItems_eq, sortedItems_eq, writeItems_eq, map_map]
    rw [map_congr_left ih]
    rfl
  | hobject entries ih =>
    have hvalues : entries.map (onValue (canonicalJson numbers localeCompare))
        = (entries.map (onValue (sorted localeCompare))).map (onValue (write numbers)) := by
      rw [map_map]
      exact map_congr_left fun entry hentry => congrArg (Prod.mk entry.1) (ih entry hentry)
    rw [canonicalJson, sorted, write, canonicalEntries_eq, sortedEntries_eq, writeEntries_eq, hvalues,
      ownOrder_map, sortKeys_map, map_map]
    rfl

theorem ownOrder_perm {β : Type} (entries : List (JsString × β)) : (ownOrder entries).Perm entries := by
  unfold ownOrder
  have hnone : entries.filter (fun entry => (indexOf entry.1).isNone)
      = entries.filter fun entry => !(indexOf entry.1).isSome := by
    refine filter_congr fun entry _ => ?_
    cases indexOf entry.1 <;> rfl
  rw [hnone]
  exact ((perm_insertionSort _ _).append_right _).trans (filter_append_perm _ _)

theorem sortKeys_perm {β : Type} (entries : List (JsString × β)) :
    (sortKeys localeCompare (ownOrder entries)).Perm entries :=
  (perm_insertionSort _ _).trans (ownOrder_perm entries)

/-! ## One value -/

variable {value value' : JsonValue ν}

theorem Same.symm (h : Same value value') : Same value' value := by
  induction h with
  | refl value => exact .refl value
  | trans _ _ ih ih' => exact ih'.trans ih
  | item _ ih => exact ih.item
  | entry _ ih => exact ih.entry
  | order h => exact .order h.symm

theorem Valid.of_array {items : List (JsonValue ν)} (h : Valid (.array items)) : ∀ item ∈ items, Valid item := by
  cases h with
  | array h => exact h

variable {entries : List (JsString × JsonValue ν)}

theorem Valid.of_object (h : Valid (.object entries)) :
    (entries.map (·.1)).Nodup ∧ ∀ entry ∈ entries, Valid entry.2 := by
  cases h with
  | object hkeys h => exact ⟨hkeys, h⟩

theorem Same.valid (h : Same value value') (hvalid : Valid value) : Valid value' := by
  induction h with
  | refl => exact hvalid
  | trans _ _ ih ih' => exact ih' (ih hvalid)
  | @item before after item item' _ ih =>
    have hitems := hvalid.of_array
    refine .array fun other hother => ?_
    rcases mem_append.mp hother with hother | hother
    · exact hitems other (by simp [hother])
    · rcases mem_cons.mp hother with rfl | hother
      · exact ih (hitems item (by simp))
      · exact hitems other (by simp [hother])
  | @entry before after key value value' _ ih =>
    obtain ⟨hkeys, hentries⟩ := hvalid.of_object
    refine .object (by simpa using hkeys) fun other hother => ?_
    rcases mem_append.mp hother with hother | hother
    · exact hentries other (by simp [hother])
    · rcases mem_cons.mp hother with rfl | hother
      · exact ih (hentries (key, value) (by simp))
      · exact hentries other (by simp [hother])
  | order h =>
    obtain ⟨hkeys, hentries⟩ := hvalid.of_object
    exact .object ((h.map _).nodup_iff.mp hkeys) fun other hother =>
      hentries other (h.mem_iff.mpr hother)

theorem same_items {f : JsonValue ν → JsonValue ν} {items : List (JsonValue ν)} (before : List (JsonValue ν))
    (h : ∀ item ∈ items, Same item (f item)) : Same (.array (before ++ items)) (.array (before ++ items.map f)) := by
  induction items generalizing before with
  | nil => exact .refl _
  | cons item items ih =>
    rw [forall_mem_cons] at h
    refine Same.trans h.1.item ?_
    have hrest := ih (before ++ [f item]) h.2
    simpa using hrest

theorem same_entries {f : JsonValue ν → JsonValue ν} (before : List (JsString × JsonValue ν))
    (h : ∀ entry ∈ entries, Same entry.2 (f entry.2)) :
    Same (.object (before ++ entries)) (.object (before ++ entries.map (onValue f))) := by
  induction entries generalizing before with
  | nil => exact .refl _
  | cons entry entries ih =>
    rw [forall_mem_cons] at h
    refine Same.trans h.1.entry ?_
    have hrest := ih (before ++ [onValue f entry]) h.2
    simpa [onValue] using hrest

theorem same_sorted (value : JsonValue ν) : Same value (sorted localeCompare value) := by
  induction value using JsonValue.induct with
  | hnull | hboolean | hnumber | hstring => exact .refl _
  | harray items ih =>
    rw [sorted, sortedItems_eq]
    exact same_items [] ih
  | hobject entries ih =>
    rw [sorted, sortedEntries_eq]
    exact (same_entries [] ih).trans (.order (sortKeys_perm _).symm)

/-! ## Order -/

section
variable {α : Type} {r s : α → α → Prop} [DecidableRel r] (htotal : ∀ a b, r a b ∨ r b a)
  (htrans : ∀ a b c, r a b → r b c → r a c)
include htotal htrans

theorem pairwise_orderedInsert {a : α} {l : List α} (hown : ∀ b ∈ l, s a b)
    (h : l.Pairwise fun a b => r a b ∧ (r b a → s a b)) :
    (l.orderedInsert r a).Pairwise fun a b => r a b ∧ (r b a → s a b) := by
  induction l with
  | nil => exact pairwise_singleton _ _
  | cons b l ih =>
    rw [pairwise_cons] at h
    rw [orderedInsert_cons]
    split
    next hab =>
      refine pairwise_cons.mpr ⟨?_, pairwise_cons.mpr h⟩
      intro c hc
      rcases mem_cons.mp hc with rfl | hc'
      · exact ⟨hab, fun _ => hown _ mem_cons_self⟩
      · exact ⟨htrans _ _ _ hab (h.1 c hc').1, fun _ => hown c hc⟩
    next hab =>
      refine pairwise_cons.mpr ⟨?_, ih (fun c hc => hown c (mem_cons_of_mem _ hc)) h.2⟩
      intro c hc
      rcases (mem_orderedInsert r).mp hc with rfl | hc
      · exact ⟨(htotal _ _).resolve_left hab, fun hback => absurd hback hab⟩
      · exact h.1 c hc

/-- **Stability.** What is equal for the sort stays in its order. -/
theorem pairwise_stable {l : List α} (h : l.Pairwise s) :
    (l.insertionSort r).Pairwise fun a b => r a b ∧ (r b a → s a b) := by
  induction l with
  | nil => exact Pairwise.nil
  | cons a l ih =>
    rw [pairwise_cons] at h
    rw [insertionSort_cons]
    exact pairwise_orderedInsert htotal htrans
      (fun b hb => h.1 b ((mem_insertionSort r).mp hb)) (ih h.2)

end

/-- The order of `Object.entries`, as far as the keys tell it. -/
def OwnLe {β : Type} (left right : JsString × β) : Prop :=
  match indexOf left.1, indexOf right.1 with
  | some index, some index' => index ≤ index'
  | none, some _ => False
  | _, none => True

theorem ownOrder_pairwise {β : Type} (entries : List (JsString × β)) : (ownOrder entries).Pairwise OwnLe := by
  unfold ownOrder
  refine pairwise_append.mpr ⟨?_, ?_, ?_⟩
  · have hsorted : ((entries.filter fun entry => (indexOf entry.1).isSome).insertionSort
        fun left right => (indexOf left.1).getD 0 ≤ (indexOf right.1).getD 0).Pairwise
        fun left right => (indexOf left.1).getD 0 ≤ (indexOf right.1).getD 0
          ∧ ((indexOf right.1).getD 0 ≤ (indexOf left.1).getD 0 → True) :=
      pairwise_stable (r := fun left right : JsString × β => (indexOf left.1).getD 0 ≤ (indexOf right.1).getD 0)
        (s := fun _ _ => True) (fun _ _ => le_total _ _) (fun _ _ _ => le_trans)
        (pairwise_of_forall fun _ _ => trivial)
    refine hsorted.imp_of_mem fun {left right} hleft hright hle => ?_
    obtain ⟨-, hleft⟩ := mem_filter.mp ((mem_insertionSort _).mp hleft)
    obtain ⟨-, hright⟩ := mem_filter.mp ((mem_insertionSort _).mp hright)
    obtain ⟨index, hindex⟩ := Option.isSome_iff_exists.mp hleft
    obtain ⟨index', hindex'⟩ := Option.isSome_iff_exists.mp hright
    have hle := hle.1
    rw [hindex, hindex'] at hle
    unfold OwnLe
    rw [hindex, hindex']
    exact hle
  · refine (pairwise_of_forall fun _ _ => trivial : List.Pairwise (fun _ _ => True) _).imp_of_mem
      fun {left right} _ hright _ => ?_
    obtain ⟨-, hright⟩ := mem_filter.mp hright
    rw [Option.isNone_iff_eq_none] at hright
    unfold OwnLe
    rw [hright]
    cases indexOf left.1 <;> trivial
  · intro left _ right hright
    obtain ⟨-, hright⟩ := mem_filter.mp hright
    rw [Option.isNone_iff_eq_none] at hright
    unfold OwnLe
    rw [hright]
    cases indexOf left.1 <;> trivial

theorem digits_inj {key key' : JsString} (h : ∀ unit ∈ key, isDigit unit = true)
    (h' : ∀ unit ∈ key', isDigit unit = true)
    (hsame : key.map (fun unit => unit.toNat - 48) = key'.map fun unit => unit.toNat - 48) : key = key' := by
  induction key generalizing key' with
  | nil => simpa using hsame.symm
  | cons unit key ih =>
    cases key' with
    | nil => simp at hsame
    | cons unit' key' =>
      rw [forall_mem_cons] at h h'
      obtain ⟨hunit, hkey⟩ := List.cons.inj hsame
      dsimp only at hunit
      rw [ih h.2 h'.2 hkey]
      have hdigit := h.1
      have hdigit' := h'.1
      simp only [isDigit, Bool.and_eq_true, decide_eq_true_eq, UInt16.le_iff_toNat_le] at hdigit hdigit'
      have hlow : (48 : UInt16).toNat = 48 := rfl
      rw [UInt16.toNat_inj.mp (show unit.toNat = unit'.toNat by omega)]

/-- An index is 0, or its key is written with its digits. -/
theorem indexOf_digits {key : JsString} {index : Nat} (h : indexOf key = some index) :
    (∀ unit ∈ key, isDigit unit = true) ∧ key ≠ [] ∧
      ((key = [48] ∧ index = 0) ∨ Nat.digits 10 index = (key.map fun unit => unit.toNat - 48).reverse) := by
  unfold indexOf at h
  dsimp only at h
  split at h
  next hvalid =>
    simp only [Bool.and_eq_true, Bool.or_eq_true, decide_eq_true_eq, all_eq_true] at hvalid
    obtain ⟨⟨⟨hne, hdigits⟩, hhead⟩, -⟩ := hvalid
    have hvalue : index = Nat.ofDigits 10 (key.map fun unit => unit.toNat - 48).reverse := by
      rw [Nat.ofDigits_eq_foldr, foldr_reverse, foldl_map, ← Option.some.inj h]
      congr 1
      funext value unit
      simp
      ring
    refine ⟨hdigits, hne, ?_⟩
    obtain ⟨first, rest, rfl⟩ := exists_cons_of_ne_nil hne
    by_cases hzero : first = 48
    · have hrest : rest = [] := by simpa [hzero] using hhead
      subst hzero hrest
      exact .inl ⟨rfl, hvalue⟩
    · right
      rw [hvalue]
      refine Nat.digits_ofDigits 10 (by decide) _ ?_ ?_
      · intro digit hdigit
        obtain ⟨unit, hunit, rfl⟩ := mem_map.mp (mem_reverse.mp hdigit)
        have := hdigits unit hunit
        simp only [isDigit, Bool.and_eq_true, decide_eq_true_eq, UInt16.le_iff_toNat_le] at this
        have hhigh : (57 : UInt16).toNat = 57 := rfl
        omega
      · intro _
        rw [getLast_reverse]
        have hfirst := hdigits first mem_cons_self
        simp only [isDigit, Bool.and_eq_true, decide_eq_true_eq, UInt16.le_iff_toNat_le] at hfirst
        have hlow : (48 : UInt16).toNat = 48 := rfl
        have hne48 : first.toNat ≠ 48 := fun hsame => hzero (UInt16.toNat_inj.mp hsame)
        simp only [map_cons, head_cons]
        omega
  · cases h

theorem indexOf_inj {key key' : JsString} {index : Nat} (h : indexOf key = some index)
    (h' : indexOf key' = some index) : key = key' := by
  obtain ⟨hdigits, hne, hwhich⟩ := indexOf_digits h
  obtain ⟨hdigits', hne', hwhich'⟩ := indexOf_digits h'
  rcases hwhich with ⟨rfl, rfl⟩ | hwritten
  · rcases hwhich' with ⟨rfl, -⟩ | hwritten'
    · rfl
    · simp only [Nat.digits_zero] at hwritten'
      exact absurd (by simpa using hwritten'.symm) hne'
  · rcases hwhich' with ⟨rfl, rfl⟩ | hwritten'
    · simp only [Nat.digits_zero] at hwritten
      exact absurd (by simpa using hwritten.symm) hne
    · exact digits_inj hdigits hdigits' (reverse_injective (hwritten.symm.trans hwritten'))

variable (hcollation : Collation localeCompare)
include hcollation

theorem sortKeys_pairwise {β : Type} (entries : List (JsString × β)) :
    (sortKeys localeCompare (ownOrder entries)).Pairwise fun left right =>
      localeCompare left.1 right.1 ≤ 0 ∧ (localeCompare right.1 left.1 ≤ 0 → OwnLe left right) := by
  refine pairwise_stable (r := fun left right : JsString × β => localeCompare left.1 right.1 ≤ 0)
    (fun left right => ?_) (fun _ _ _ => hcollation.trans _ _ _) (ownOrder_pairwise entries)
  rcases le_total (localeCompare left.1 right.1) 0 with hle | hle
  · exact .inl hle
  · exact .inr ((hcollation.swap _ _).mpr hle)

/-- Without ties the order of insertion does not matter. -/
theorem sortKeys_unique {β : Type} {entries entries' : List (JsString × β)}
    (hkeys : (entries.map (·.1)).Nodup)
    (huntied : ∀ left ∈ entries, ∀ right ∈ entries, indexOf left.1 = none → indexOf right.1 = none →
      localeCompare left.1 right.1 = 0 → left.1 = right.1) (hperm : entries.Perm entries') :
    sortKeys localeCompare (ownOrder entries) = sortKeys localeCompare (ownOrder entries') := by
  refine Perm.eq_of_pairwise ?_ (sortKeys_pairwise hcollation entries)
    (sortKeys_pairwise hcollation entries')
    ((sortKeys_perm entries).trans (hperm.trans (sortKeys_perm entries').symm))
  rintro left right hleft hright ⟨hle, hown⟩ ⟨hge, hown'⟩
  have hleft := (sortKeys_perm entries).mem_iff.mp hleft
  have hright := hperm.mem_iff.mpr ((sortKeys_perm entries').mem_iff.mp hright)
  refine inj_on_of_nodup_map hkeys hleft hright ?_
  have hfirst := hown hge
  have hsecond := hown' hle
  have hzero : localeCompare left.1 right.1 = 0 := le_antisymm hle ((hcollation.swap _ _).mp hge)
  unfold OwnLe at hfirst hsecond
  cases hindex : indexOf left.1 with
  | none =>
    cases hindex' : indexOf right.1 with
    | none => exact huntied left hleft right hright hindex hindex' hzero
    | some index' =>
      rw [hindex, hindex'] at hfirst
      exact hfirst.elim
  | some index =>
    cases hindex' : indexOf right.1 with
    | none =>
      rw [hindex, hindex'] at hsecond
      exact hsecond.elim
    | some index' =>
      rw [hindex, hindex'] at hfirst hsecond
      obtain rfl := le_antisymm hfirst hsecond
      exact indexOf_inj hindex hindex'

theorem Same.sorted_eq (h : Same value value') (hvalid : Valid value) (huntied : Untied localeCompare value) :
    sorted localeCompare value = sorted localeCompare value' ∧ Untied localeCompare value' := by
  induction h with
  | refl => exact ⟨rfl, huntied⟩
  | trans h _ ih ih' =>
    obtain ⟨hfirst, huntied'⟩ := ih hvalid huntied
    obtain ⟨hsecond, huntied''⟩ := ih' (h.valid hvalid) huntied'
    exact ⟨hfirst.trans hsecond, huntied''⟩
  | @item before after item item' _ ih =>
    cases huntied with
    | array hitems =>
      obtain ⟨hsame, huntied'⟩ := ih (hvalid.of_array item (by simp)) (hitems item (by simp))
      refine ⟨?_, .array fun other hother => ?_⟩
      · simp [sorted, sortedItems_eq, hsame]
      · rcases mem_append.mp hother with hother | hother
        · exact hitems other (by simp [hother])
        · rcases mem_cons.mp hother with rfl | hother
          · exact huntied'
          · exact hitems other (by simp [hother])
  | @entry before after key value value' _ ih =>
    cases huntied with
    | object hkeys hentries =>
      obtain ⟨hsame, huntied'⟩ := ih (hvalid.of_object.2 (key, value) (by simp)) (hentries (key, value) (by simp))
      refine ⟨?_, .object ?_ fun other hother => ?_⟩
      · simp [sorted, sortedEntries_eq, onValue, hsame]
      · have hkey : ∀ other ∈ before ++ (key, value') :: after,
            ∃ entry ∈ before ++ (key, value) :: after, entry.1 = other.1 := by
          intro other hother
          rcases mem_append.mp hother with hother | hother
          · exact ⟨other, by simp [hother], rfl⟩
          · rcases mem_cons.mp hother with rfl | hother
            · exact ⟨(key, value), by simp, rfl⟩
            · exact ⟨other, by simp [hother], rfl⟩
        intro left hleft right hright hindex hindex' hzero
        obtain ⟨left', hleft', hsameLeft⟩ := hkey left hleft
        obtain ⟨right', hright', hsameRight⟩ := hkey right hright
        rw [← hsameLeft, ← hsameRight] at hzero ⊢
        rw [← hsameLeft] at hindex
        rw [← hsameRight] at hindex'
        exact hkeys left' hleft' right' hright' hindex hindex' hzero
      · rcases mem_append.mp hother with hother | hother
        · exact hentries other (by simp [hother])
        · rcases mem_cons.mp hother with rfl | hother
          · exact huntied'
          · exact hentries other (by simp [hother])
  | @order entries entries' hperm =>
    cases huntied with
    | object hkeys hentries =>
      refine ⟨?_, .object (fun left hleft right hright => hkeys left (hperm.mem_iff.mpr hleft)
        right (hperm.mem_iff.mpr hright)) fun other hother =>
          hentries other (hperm.mem_iff.mpr hother)⟩
      rw [sorted, sorted, sortedEntries_eq, sortedEntries_eq]
      congr 1
      refine sortKeys_unique hcollation ?_ ?_ (hperm.map _)
      · rw [map_map]
        exact hvalid.of_object.1
      · intro left hleft right hright
        obtain ⟨left', hleft', rfl⟩ := mem_map.mp hleft
        obtain ⟨right', hright', rfl⟩ := mem_map.mp hright
        exact hkeys left' hleft' right' hright'

omit hcollation

theorem not_both_orders {α : Type} {l : List α} (hnodup : l.Nodup) {a b : α} (hne : a ≠ b)
    (hab : [a, b].Sublist l) (hba : [b, a].Sublist l) : False := by
  induction l with
  | nil => cases hab
  | cons c l ih =>
    rw [nodup_cons] at hnodup
    cases hab with
    | cons _ hab =>
      cases hba with
      | cons _ hba => exact ih hnodup.2 hab hba
      | cons_cons _ hba => exact hnodup.1 (hab.subset (by simp))
    | cons_cons _ hab =>
      cases hba with
      | cons _ hba => exact hnodup.1 (hba.subset (by simp))
      | cons_cons _ hba => exact hne rfl

/-- Of two tied keys the one that was inserted first comes first. -/
theorem tied_first {β : Type} {left right : JsString × β} {rest : List (JsString × β)} (hleft : indexOf left.1 = none)
    (hright : indexOf right.1 = none) (htie : localeCompare left.1 right.1 ≤ 0) :
    [left, right].Sublist (sortKeys localeCompare (ownOrder (left :: right :: rest))) := by
  unfold sortKeys
  refine pair_sublist_insertionSort htie ?_
  unfold ownOrder
  refine Sublist.trans ?_ (sublist_append_right _ _)
  simp [hleft, hright]

theorem perm_pair {α : Type} {l : List α} {a b : α} (ha : a ∈ l) (hb : b ∈ l) (hne : a ≠ b) :
    ∃ rest, l.Perm (a :: b :: rest) := by
  obtain ⟨before, after, rfl⟩ := append_of_mem ha
  have hmem : b ∈ before ++ after := by
    rcases mem_append.mp hb with hb | hb
    · exact mem_append_left _ hb
    · exact mem_append_right _ ((mem_cons.mp hb).resolve_left hne.symm)
  obtain ⟨before', after', hothers⟩ := append_of_mem hmem
  refine ⟨before' ++ after', perm_middle.trans ((Perm.cons a ?_))⟩
  rw [hothers]
  exact perm_middle

/-- An object is sorted alike for every order of insertion. -/
def SortedAlike (localeCompare : JsString → JsString → Int)
    (entries : List (JsString × JsonValue ν)) : Prop :=
  ∀ entries', Same (.object entries) (.object entries') →
    sortKeys localeCompare (ownOrder (entries.map (onValue (sorted localeCompare))))
      = sortKeys localeCompare (ownOrder (entries'.map (onValue (sorted localeCompare))))

theorem sortedAlike_of_sorted (h : ∀ value', Same (.object entries) value' →
      sorted localeCompare (.object entries) = sorted localeCompare value') :
    SortedAlike localeCompare entries := by
  intro entries' hsame
  have heq := h _ hsame
  rw [sorted, sorted, sortedEntries_eq, sortedEntries_eq] at heq
  exact JsonValue.object.inj heq

theorem nodup_onValue (hkeys : (entries.map (·.1)).Nodup) :
    ((entries.map (onValue (sorted localeCompare))).map (·.1)).Nodup := by
  rw [map_map]
  exact hkeys

/-- Tied keys are one, or their order would tell which was inserted first. -/
theorem SortedAlike.tied_eq (halike : SortedAlike localeCompare entries) (hcollation : Collation localeCompare)
    (hkeys : (entries.map (·.1)).Nodup) {left right : JsString × JsonValue ν} (hleft : left ∈ entries)
    (hright : right ∈ entries) (hindex : indexOf left.1 = none) (hindex' : indexOf right.1 = none)
    (hzero : localeCompare left.1 right.1 = 0) : left.1 = right.1 := by
  by_contra hne
  have hleftRight : left ≠ right := fun hsame => hne (congrArg Prod.fst hsame)
  obtain ⟨rest, hperm⟩ := perm_pair hleft hright hleftRight
  have hswap : entries.Perm (right :: left :: rest) := hperm.trans (.swap right left rest)
  have hboth := (halike _ (.order hperm)).symm.trans (halike _ (.order hswap))
  have hfirst : [onValue (sorted localeCompare) left, onValue (sorted localeCompare) right].Sublist
      (sortKeys localeCompare (ownOrder ((left :: right :: rest).map (onValue (sorted localeCompare))))) :=
    tied_first hindex hindex' hzero.le
  have hsecond : [onValue (sorted localeCompare) right, onValue (sorted localeCompare) left].Sublist
      (sortKeys localeCompare (ownOrder ((right :: left :: rest).map (onValue (sorted localeCompare))))) :=
    tied_first hindex' hindex ((hcollation.swap _ _).mpr hzero.ge)
  rw [← hboth] at hsecond
  have hdifferent : onValue (sorted localeCompare) left ≠ onValue (sorted localeCompare) right := by
    intro hsame
    have hkey := congrArg Prod.fst hsame
    exact hne hkey
  refine not_both_orders ?_ hdifferent hfirst hsecond
  refine (sortKeys_perm _).nodup_iff.mpr (Nodup.of_map (·.1) (nodup_onValue ?_))
  exact (hperm.map _).nodup_iff.mp hkeys

/-- The value of a key is sorted alike too: an object has one entry for the key. -/
theorem SortedAlike.value_eq (halike : SortedAlike localeCompare entries) (hkeys : (entries.map (·.1)).Nodup)
    {entry : JsString × JsonValue ν} (hentry : entry ∈ entries) {value' : JsonValue ν} (hsame : Same entry.2 value') :
    sorted localeCompare entry.2 = sorted localeCompare value' := by
  obtain ⟨before, after, rfl⟩ := append_of_mem hentry
  have heq := halike _ hsame.entry
  have hmem : (entry.1, sorted localeCompare value')
      ∈ (before ++ entry :: after).map (onValue (sorted localeCompare)) := by
    have hother : (entry.1, sorted localeCompare value') ∈ sortKeys localeCompare (ownOrder
        ((before ++ (entry.1, value') :: after).map (onValue (sorted localeCompare)))) :=
      (sortKeys_perm _).mem_iff.mpr (by simp [onValue])
    rw [← heq] at hother
    exact (sortKeys_perm _).mem_iff.mp hother
  have hown : onValue (sorted localeCompare) entry
      ∈ (before ++ entry :: after).map (onValue (sorted localeCompare)) := by simp
  exact congrArg Prod.snd (inj_on_of_nodup_map (nodup_onValue hkeys) hown hmem rfl)

/-- A value that is written alike for every order of insertion has no ties. -/
theorem untied_of_sorted (hcollation : Collation localeCompare) {value : JsonValue ν} (hvalid : Valid value)
    (h : ∀ value', Same value value' → sorted localeCompare value = sorted localeCompare value') :
    Untied localeCompare value := by
  revert hvalid h
  induction value using JsonValue.induct with
  | hnull => exact fun _ _ => .null
  | hboolean value => exact fun _ _ => .boolean value
  | hnumber value => exact fun _ _ => .number value
  | hstring value => exact fun _ _ => .string value
  | harray items ih =>
    intro hvalid h
    refine .array fun item hitem => ih item hitem (hvalid.of_array item hitem) fun item' hsame => ?_
    obtain ⟨before, after, rfl⟩ := append_of_mem hitem
    simpa [sorted, sortedItems_eq] using h _ hsame.item
  | hobject entries ih =>
    intro hvalid h
    obtain ⟨hkeys, hentries⟩ := hvalid.of_object
    have halike := sortedAlike_of_sorted h
    refine .object ?_ fun entry hentry => ih entry hentry (hentries entry hentry) fun value' hsame => ?_
    · intro left hleft right hright hindex hindex' hzero
      exact halike.tied_eq hcollation hkeys hleft hright hindex hindex' hzero
    · exact halike.value_eq hkeys hentry hsame

/-! ## Canonical texts -/

variable (hfaithful : numbers.Faithful)
include hfaithful

theorem canonicalJson_inj (hvalid : Valid value) (hvalid' : Valid value') :
    canonicalJson numbers localeCompare value = canonicalJson numbers localeCompare value'
      ↔ sorted localeCompare value = sorted localeCompare value' := by
  rw [canonicalJson_eq, canonicalJson_eq]
  constructor
  · intro htext
    have hread := parse_write hfaithful ((same_sorted value).valid hvalid : Valid (sorted localeCompare value))
    have hread' := parse_write hfaithful
      ((same_sorted value').valid hvalid' : Valid (sorted localeCompare value'))
    rw [htext, hread'] at hread
    exact (Option.some.inj hread).symm
  · exact congrArg _

/-- **Canonical texts.** The text of a value is read as the value, and values with one text are the
same. All texts of a value are one, whatever the order of insertion, exactly where no object of it
has different keys, other than indices, that compare as equal. -/
theorem canonicalJson_canonical (hcollation : Collation localeCompare) {value : JsonValue ν}
    (hvalid : Valid value) :
    (∃ read, parse numbers (canonicalJson numbers localeCompare value) = some read ∧ Same read value) ∧
    (∀ value', Valid value' →
      canonicalJson numbers localeCompare value = canonicalJson numbers localeCompare value' →
      Same value value') ∧
    ((∀ value', Valid value' →
      (canonicalJson numbers localeCompare value = canonicalJson numbers localeCompare value'
        ↔ Same value value')) ↔ Untied localeCompare value) := by
  have hinjective : ∀ value', Valid value' →
      canonicalJson numbers localeCompare value = canonicalJson numbers localeCompare value' →
      Same value value' := by
    intro value' hvalid' htext
    have hsorted := (canonicalJson_inj hfaithful hvalid hvalid').mp htext
    exact (same_sorted value).trans (hsorted ▸ (same_sorted value').symm)
  refine ⟨?_, hinjective, ?_, ?_⟩
  · rw [canonicalJson_eq]
    exact ⟨_, parse_write hfaithful ((same_sorted value).valid hvalid), (same_sorted value).symm⟩
  · intro hall
    refine untied_of_sorted hcollation hvalid fun value' hsame => ?_
    exact (canonicalJson_inj hfaithful hvalid (hsame.valid hvalid)).mp
      ((hall value' (hsame.valid hvalid)).mpr hsame)
  · intro huntied value' hvalid'
    refine ⟨hinjective value' hvalid', fun hsame => ?_⟩
    exact (canonicalJson_inj hfaithful hvalid hvalid').mpr
      (hsame.sorted_eq hcollation hvalid huntied).1

/-! ## An example -/

omit hfaithful

/-- The number 0. -/
def exampleNumbers : Numbers Unit where
  text _ := [48]
  read text := if text = [48] then some () else none

theorem exampleNumbers_faithful : exampleNumbers.Faithful := by
  refine ⟨fun _ => by simp [exampleNumbers], fun _ unit hunit => ?_, fun _ => by simp [exampleNumbers]⟩
  obtain rfl := mem_singleton.mp hunit
  rfl

/-- The letter é, as one unit or as an e with an accent. -/
def decompose (text : JsString) : List Nat :=
  text.flatMap fun unit => if unit = 233 then [101, 769] else [unit.toNat]

def exampleCompare (left right : JsString) : Int :=
  if decompose left < decompose right then -1
  else if decompose right < decompose left then 1
  else 0

theorem exampleCompare_le (left right : JsString) :
    exampleCompare left right ≤ 0 ↔ decompose left ≤ decompose right := by
  unfold exampleCompare
  split
  next hlt => exact iff_of_true (by decide) hlt.le
  next hlt =>
    split
    next hgt => exact iff_of_false (by decide) hgt.not_ge
    next hgt => exact iff_of_true (le_refl _) (not_lt.mp hgt)

theorem exampleCompare_collation : Collation exampleCompare := by
  constructor
  · intro left right
    rw [exampleCompare_le]
    unfold exampleCompare
    split
    next hlt => exact iff_of_false hlt.not_ge (by decide)
    next hlt =>
      refine iff_of_true (not_lt.mp hlt) ?_
      split <;> decide
  · intro first second third h h'
    rw [exampleCompare_le] at *
    exact le_trans h h'

def accentValue (first second : JsString) : JsonValue Unit :=
  .object [(first, .boolean true), (second, .boolean true)]

/-- An object with the two spellings of é: its text tells the order of insertion. -/
theorem insertion_order_told :
    Same (accentValue [233] [101, 769]) (accentValue [101, 769] [233]) ∧
      canonicalJson exampleNumbers exampleCompare (accentValue [233] [101, 769])
        ≠ canonicalJson exampleNumbers exampleCompare (accentValue [101, 769] [233]) :=
  ⟨.order (.swap _ _ _), by decide⟩

theorem canonicalJson_canonical_example :
    canonicalJson exampleNumbers exampleCompare (accentValue (js "b") (js "a"))
      = canonicalJson exampleNumbers exampleCompare (accentValue (js "a") (js "b")) := by
  have hentries : ∀ entry ∈ [(js "b", (JsonValue.boolean true : JsonValue Unit)),
      (js "a", .boolean true)], entry = (js "b", .boolean true) ∨ entry = (js "a", .boolean true) := by simp
  have hvalid : Valid (accentValue (js "b") (js "a")) := by
    refine .object (by decide) fun entry hentry => ?_
    rcases hentries entry hentry with rfl | rfl <;> exact .boolean true
  have huntied : Untied exampleCompare (accentValue (js "b") (js "a")) := by
    refine .object (fun left hleft right hright _ _ hzero => ?_) fun entry hentry => ?_
    · rcases hentries left hleft with rfl | rfl <;> rcases hentries right hright with rfl | rfl
      · rfl
      · exact absurd hzero (by decide)
      · exact absurd hzero (by decide)
      · rfl
    · rcases hentries entry hentry with rfl | rfl <;> exact .boolean true
  have hsame : Same (accentValue (js "b") (js "a")) (accentValue (js "a") (js "b")) := .order (.swap _ _ _)
  exact ((canonicalJson_canonical exampleNumbers_faithful exampleCompare_collation hvalid).2.2.mpr
    huntied _ (hsame.valid hvalid)).mpr hsame

end TsEpistle.Json
