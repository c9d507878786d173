import TsEpistle.Discussions.Locating

/-! A quote that was captured is found where it was, as long as the normal forms agree with the text. -/

namespace TsEpistle.Discussions
open Library List
open Pages (isSpace trim)

/-! ## The index -/

theorem nodeAt_append (path : Path) (index : Nat) (root : Node) :
    nodeAt (path ++ [index]) root = (nodeAt path root).bind (nodeAt [index]) := by
  induction path generalizing root with
  | nil => rfl
  | cons first path ih =>
    cases root with
    | element tagName isHidden ariaHidden isContentEditable childNodes =>
      rw [cons_append, nodeAt, nodeAt]
      cases childNodes[first]? with
      | none => rfl
      | some child => exact ih child
    | text | other => rfl

theorem nodeAt_child {path : Path} {root : Node} {tagName : JsString} {isHidden ariaHidden isContentEditable : Bool}
    {childNodes : List Node}
    (h : nodeAt path root = some (.element tagName isHidden ariaHidden isContentEditable childNodes))
    (index : Nat) : nodeAt (path ++ [index]) root = childNodes[index]? := by
  rw [nodeAt_append, h]
  show childNodes[index]?.bind (nodeAt []) = childNodes[index]?
  cases childNodes[index]? with
  | none | some => rfl

section
variable {unicode : Unicode} {root : Node}

variable (root) in
/-- Each unit of the text has its point, and each point a node of the page. -/
structure Indexed (state : Walk) : Prop where
  aligned : state.points.length = state.text.length
  inside : ∀ point ∈ state.points, contains root point.node = true

theorem Indexed.start : Indexed root .start := ⟨rfl, forall_mem_nil _⟩

/-- Neither the heading nor a space that is pending moves a point. -/
theorem Indexed.congr {state state' : Walk} (h : Indexed root state) (htext : state'.text = state.text)
    (hpoints : state'.points = state.points) : Indexed root state' := by
  refine ⟨?_, ?_⟩
  · rw [hpoints, htext]
    exact h.aligned
  · rw [hpoints]
    exact h.inside

theorem Indexed.block {state : Walk} (h : Indexed root state) (tagName : JsString) :
    Indexed root (state.block tagName) := by
  unfold Walk.block
  split
  · exact h.congr rfl rfl
  · exact h

theorem Indexed.append {state : Walk} (h : Indexed root state) (text : JsString) {points : List Point}
    (haligned : points.length = text.length) (hinside : ∀ point ∈ points, contains root point.node = true)
    (heading : Option JsString) (pendingSpace : Bool) :
    Indexed root ⟨state.text ++ text, heading, pendingSpace, state.points ++ points⟩ := by
  refine ⟨?_, ?_⟩
  · rw [length_append, length_append, h.aligned, haligned]
  · intro point hpoint
    exact (mem_append.mp hpoint).elim (h.inside point) (hinside point)

theorem Indexed.indexCluster {state : Walk} (h : Indexed root state) {node : Path} (hnode : contains root node = true)
    (start : Nat) (raw : JsString) : Indexed root (indexCluster unicode node start raw state) := by
  unfold Discussions.indexCluster
  split
  · exact h.congr rfl rfl
  · have hspace : Indexed root (state.space node start) := by
      unfold Walk.space
      split
      · refine h.append [32] rfl ?_ _ _
        intro point hpoint
        rw [mem_singleton.mp hpoint]
        exact hnode
      · exact h
    refine hspace.append _ length_replicate ?_ _ _
    intro point hpoint
    rw [eq_of_mem_replicate hpoint]
    exact hnode

theorem Indexed.indexClusters {node : Path} (hnode : contains root node = true) (raws : List JsString) {state : Walk}
    (h : Indexed root state) (start : Nat) : Indexed root (indexClusters unicode node start raws state) := by
  induction raws generalizing start state with
  | nil => exact h
  | cons raw raws ih => exact ih (h.indexCluster hnode start raw) _

mutual
theorem Indexed.walk (node : Node) {path : Path} {state : Walk} (hnode : nodeAt path root = some node)
    (h : Indexed root state) : Indexed root (walk unicode path node state) := by
  cases node with
  | element tagName isHidden ariaHidden isContentEditable childNodes =>
    rw [Discussions.walk]
    split
    · exact h
    · refine (Indexed.walkAll childNodes 0 (fun i => ?_) ?_).block tagName
      · rw [nodeAt_child hnode, Nat.zero_add]
      · split
        · exact (h.block tagName).congr rfl rfl
        · exact h.block tagName
  | text data =>
    refine Indexed.indexClusters ?_ _ h 0
    rw [contains, hnode]
    rfl
  | other => exact h
theorem Indexed.walkAll (nodes : List Node) {path : Path} (index : Nat) {state : Walk}
    (hnodes : ∀ i, nodeAt (path ++ [index + i]) root = nodes[i]?) (h : Indexed root state) :
    Indexed root (walkAll unicode path index nodes state) := by
  cases nodes with
  | nil => exact h
  | cons node nodes =>
    rw [Discussions.walkAll]
    refine Indexed.walkAll nodes (index + 1) (fun i => ?_) (Indexed.walk node (hnodes 0) h)
    have hrest := hnodes (i + 1)
    rw [getElem?_cons_succ] at hrest
    rw [← hrest, Nat.add_assoc, Nat.add_comm 1 i]
end

theorem index_indexed (unicode : Unicode) (root : Node) :
    (indexDiscussionText unicode root).points.length = (indexDiscussionText unicode root).text.length
      ∧ ∀ point ∈ (indexDiscussionText unicode root).points, contains root point.node = true := by
  have h : Indexed root (walk unicode [] root .start) := Indexed.walk root rfl .start
  exact ⟨h.aligned, h.inside⟩

/-- A range between two units of the text is there. -/
theorem rangeBetween_ok {start stop : Nat} (hless : start < stop)
    (hstop : stop ≤ (indexDiscussionText unicode root).text.length) :
    ∃ first ∈ (indexDiscussionText unicode root).points[start]?,
      ∃ last ∈ (indexDiscussionText unicode root).points[stop - 1]?,
        rangeBetween root (indexDiscussionText unicode root).points[start]?
          (indexDiscussionText unicode root).points[stop - 1]? = .found ⟨first.from, last.upto⟩ := by
  obtain ⟨haligned, hinside⟩ := index_indexed unicode root
  rw [← haligned] at hstop
  have hfirst := getElem?_eq_getElem (l := (indexDiscussionText unicode root).points) (i := start) (by omega)
  have hlast := getElem?_eq_getElem (l := (indexDiscussionText unicode root).points) (i := stop - 1) (by omega)
  refine ⟨_, hfirst, _, hlast, ?_⟩
  rw [hfirst, hlast, rangeBetween, hinside _ (getElem_mem _), hinside _ (getElem_mem _)]
  rfl

/-! ## Captured quotes -/

theorem selected_bounds {range : Range} {points : List Point} {index : Nat} {chosen : Option (Nat × Nat)}
    {start stop : Nat} (h : selected range index points chosen = some (start, stop))
    (hchosen : ∀ found ∈ chosen, found.1 < found.2 ∧ found.2 ≤ index) : start < stop ∧
    stop ≤ index + points.length := by
  induction points generalizing index chosen with
  | nil => exact hchosen _ h
  | cons point points ih =>
    rw [selected] at h
    rw [length_cons]
    split at h
    · have hbounds := ih h fun found hfound => by
        obtain rfl := Option.some.inj hfound
        refine ⟨?_, le_refl _⟩
        cases chosen with
        | none => exact Nat.lt_succ_self _
        | some before =>
          have hbefore := hchosen before rfl
          exact Nat.lt_succ_of_lt (by
            show before.1 < index
            omega)
      omega
    · have hbounds := ih h fun found hfound => by
        have hbefore := hchosen found hfound
        omega
      omega

theorem slice_length {text : JsString} (start : Nat) {stop : Nat} (h : stop ≤ text.length) :
    (slice text start stop).length = stop - start := by
  rw [slice, length_drop, length_take, Nat.min_eq_left h]

theorem slice_occurs {text : JsString} {start stop : Nat} (hstart : start ≤ stop) (hstop : stop ≤ text.length) :
    Occurs (slice text start stop) text start := by
  refine ⟨by omega, ?_⟩
  rw [slice, drop_take]
  exact take_prefix _ _

/-- Trimming takes white space away at both ends. -/
theorem trim_split (text : JsString) : ∃ tail, text = text.takeWhile isSpace ++ trim text ++ tail := by
  have hfront : trim text <+: text.dropWhile isSpace := by
    unfold trim
    rw [← reverse_suffix, reverse_reverse]
    exact dropWhile_suffix _
  obtain ⟨tail, htail⟩ := hfront
  refine ⟨tail, ?_⟩
  rw [append_assoc, htail, takeWhile_append_dropWhile]

/-- The place of a quote in the units it was captured from: behind the white space they begin with. -/
def quoteStart (text : JsString) (start stop : Nat) : Nat :=
  start + ((slice text start stop).takeWhile isSpace).length

theorem quote_occurs {text : JsString} {start stop : Nat} (hstart : start ≤ stop) (hstop : stop ≤ text.length) :
    Occurs (trim (slice text start stop)) text (quoteStart text start stop) := by
  obtain ⟨-, rest, hrest⟩ := slice_occurs hstart hstop
  obtain ⟨tail, htail⟩ := trim_split (slice text start stop)
  have hlength := slice_length start hstop
  rw [htail, length_append, length_append] at hlength
  refine ⟨by unfold quoteStart; omega, tail ++ rest, ?_⟩
  have hdrop : text.drop start = (slice text start stop).takeWhile isSpace
      ++ (trim (slice text start stop) ++ (tail ++ rest)) :=
    calc text.drop start = slice text start stop ++ rest := hrest.symm
      _ = _ := congrArg (· ++ rest) htail
      _ = _ := by simp only [append_assoc]
  rw [quoteStart, ← drop_drop, hdrop, drop_left]

theorem quoteStart_of_trimmed {text : JsString} {start stop : Nat}
    (h : trim (slice text start stop) = slice text start stop) : quoteStart text start stop = start := by
  obtain ⟨tail, htail⟩ := trim_split (slice text start stop)
  have hlength := congrArg List.length htail
  rw [h, length_append, length_append] at hlength
  unfold quoteStart
  omega

variable (unicode) in
/-- The normal forms agree with the text: that of the quote is the quote, and those of the texts around it are what they
were, unless the quote stands in the text only once. -/
structure Recoverable (text : JsString) (start stop : Nat) : Prop where
  quote : normalizeDiscussionQuote unicode (trim (slice text start stop)) = trim (slice text start stop)
  around : (∀ other, Occurs (trim (slice text start stop)) text other → other = quoteStart text start stop)
    ∨ (trim (slice text start stop) = slice text start stop
      ∧ normalizeContext unicode (slice text (start - 64) start) = slice text (start - 64) start
      ∧ normalizeContext unicode (slice text stop (stop + 64)) = slice text stop (stop + 64))

/-- An anchor that was captured from these units of the text. -/
structure Captured (index : DiscussionTextIndex) (range : Range) (anchor : DiscussionAnnotationAnchor)
    (start stop : Nat) :
    Prop where
  units : selected range 0 index.points none = some (start, stop)
  copied : anchor = ⟨trim (slice index.text start stop), slice index.text (start - 64) start,
    slice index.text stop (stop + 64), index.headingAt start, start⟩
  nonempty : anchor.exact ≠ []

theorem capture_some {selection : Selection} {anchor : DiscussionAnnotationAnchor}
    (h : captureDiscussionAnchor unicode root selection = some anchor) :
    ∃ start stop, Captured (indexDiscussionText unicode root) selection.range anchor start stop := by
  unfold captureDiscussionAnchor at h
  dsimp only at h
  split at h
  · cases h
  · cases hselected : selected selection.range 0 (indexDiscussionText unicode root).points none with
    | none => simp only [hselected, reduceCtorEq] at h
    | some chosen =>
      obtain ⟨start, stop⟩ := chosen
      simp only [hselected] at h
      split at h
      · cases h
      · rename_i hguard
        rw [not_or] at hguard
        obtain rfl := Option.some.inj h
        exact ⟨start, stop, hselected, rfl, hguard.1⟩

theorem Captured.bounds {selection : Range} {anchor : DiscussionAnnotationAnchor} {start stop : Nat}
    (h : Captured (indexDiscussionText unicode root) selection anchor start stop) :
    start < stop ∧ stop ≤ (indexDiscussionText unicode root).text.length := by
  have hbounds := selected_bounds h.units (fun found hfound => nomatch hfound)
  rw [Nat.zero_add, (index_indexed unicode root).1] at hbounds
  exact hbounds

/-- The captured place survives, and nothing else is found. -/
theorem Captured.survives {selection : Range} {anchor : DiscussionAnnotationAnchor} {start stop : Nat}
    (h : Captured (indexDiscussionText unicode root) selection anchor start stop)
    (hrecoverable : Recoverable unicode (indexDiscussionText unicode root).text start stop) :
    normalizeDiscussionQuote unicode anchor.exact = anchor.exact
      ∧ quoteStart (indexDiscussionText unicode root).text start stop
        ∈ surviving unicode (indexDiscussionText unicode root).text anchor.exact anchor
          (indexDiscussionText unicode root).headingAt := by
  obtain ⟨hless, hstop⟩ := h.bounds
  obtain ⟨-, rfl, -⟩ := h
  have hoccurs := quote_occurs (Nat.le_of_lt hless) hstop
  refine ⟨hrecoverable.quote, ?_⟩
  rcases hrecoverable.around with honly | ⟨htrimmed, hbefore, hafter⟩
  · unfold surviving
    dsimp only
    have hmem := mem_occurrences.mpr hoccurs
    split
    · exact hmem
    · rename_i hmany
      exact absurd (length_occurrences_le honly) hmany
  · rw [quoteStart_of_trimmed htrimmed] at hoccurs ⊢
    refine mem_surviving hoccurs ?_ ?_
    · rw [Contextual, inContext, hbefore, hafter, htrimmed, Bool.and_eq_true, Bool.or_eq_true, Bool.or_eq_true]
      refine ⟨.inr ?_, .inr ?_⟩
      · rw [endsWith, isSuffixOf_iff_suffix]
        exact drop_suffix _ _
      · rw [startsWith, isPrefixOf_iff_prefix, slice_length _ hstop,
          Nat.add_sub_cancel' (Nat.le_of_lt hless), slice,
          drop_take]
        exact take_prefix _ _
    · exact decide_eq_true rfl

end

section
variable {unicode : Unicode} {root : Node}

/-- What is located in the index of a page is there. -/
theorem discussionAnchorRange_found {anchor : DiscussionAnnotationAnchor} {start stop : Nat}
    (h : locateDiscussionAnchor unicode (indexDiscussionText unicode root).text anchor
      (indexDiscussionText unicode root).headingAt = .found start stop) :
    ∃ first ∈ (indexDiscussionText unicode root).points[start]?,
      ∃ last ∈ (indexDiscussionText unicode root).points[stop - 1]?,
        discussionAnchorRange unicode (indexDiscussionText unicode root) anchor = .found ⟨first.from, last.upto⟩ := by
  obtain ⟨hne, ⟨hstart, hstarts⟩, hstop, -⟩ := located h
  have hlength := hstarts.length_le
  have hpositive := length_pos_of_ne_nil hne
  rw [length_drop] at hlength
  have hless : start < stop := by omega
  have hwithin : stop ≤ (indexDiscussionText unicode root).text.length := by omega
  obtain ⟨first, hfirst, last, hlast, hrange⟩ := rangeBetween_ok hless hwithin
  refine ⟨first, hfirst, last, hlast, ?_⟩
  unfold discussionAnchorRange
  rw [h]
  exact hrange

/-- An anchor is missing in a page just when its quote is empty or not in the text. -/
theorem discussionAnchorRange_missing_iff {anchor : DiscussionAnnotationAnchor} :
    discussionAnchorRange unicode (indexDiscussionText unicode root) anchor = .missing ↔
    normalizeDiscussionQuote unicode anchor.exact = [] ∨ ∀ offset,
    ¬ Occurs (normalizeDiscussionQuote unicode anchor.exact) (indexDiscussionText unicode root).text offset := by
  have hmissing : locateDiscussionAnchor unicode (indexDiscussionText unicode root).text anchor
      (indexDiscussionText unicode root).headingAt = .missing ↔ _ := locate_missing_iff
  rw [← hmissing]
  cases hlocate : locateDiscussionAnchor unicode (indexDiscussionText unicode root).text anchor
    (indexDiscussionText unicode root).headingAt with
  | found start stop =>
    obtain ⟨first, -, last, -, hrange⟩ := discussionAnchorRange_found hlocate
    rw [hrange]
    exact iff_of_false nofun nofun
  | missing => exact iff_of_true (by rw [discussionAnchorRange, hlocate]) rfl
  | ambiguous =>
    refine iff_of_false ?_ nofun
    rw [discussionAnchorRange, hlocate]
    nofun

/-- A quote whose normal forms agree with the text is found where it was captured, or stands there more than once. -/
theorem Captured.found_again {selection : Range} {anchor : DiscussionAnnotationAnchor} {start stop : Nat}
    (h : Captured (indexDiscussionText unicode root) selection anchor start stop)
    (hrecoverable : Recoverable unicode (indexDiscussionText unicode root).text start stop) :
    discussionAnchorRange unicode (indexDiscussionText unicode root) anchor ≠ .missing
      ∧ ∀ range, discussionAnchorRange unicode (indexDiscussionText unicode root) anchor = .found range →
          ∃ first ∈ (indexDiscussionText unicode root).points[
              quoteStart (indexDiscussionText unicode root).text start stop]?,
            ∃ last ∈ (indexDiscussionText unicode root).points[
              quoteStart (indexDiscussionText unicode root).text start stop + anchor.exact.length - 1]?,
              range = ⟨first.from, last.upto⟩ := by
  obtain ⟨hquote, hsurvives⟩ := h.survives hrecoverable
  have hoccurs := mem_occurrences.mp (surviving_subset hsurvives)
  refine ⟨?_, fun range hrange => ?_⟩
  · rw [ne_eq, discussionAnchorRange_missing_iff, hquote, not_or]
    exact ⟨h.nonempty, fun hnone => hnone _ hoccurs⟩
  · cases hlocate : locateDiscussionAnchor unicode (indexDiscussionText unicode root).text anchor
      (indexDiscussionText unicode root).headingAt with
    | found start' stop' =>
      obtain ⟨-, hsurviving, hstop'⟩ := locate_found hlocate
      rw [hquote] at hsurviving hstop'
      rw [hsurviving, mem_singleton] at hsurvives
      obtain ⟨first, hfirst, last, hlast, hfound⟩ := discussionAnchorRange_found hlocate
      rw [hfound] at hrange
      rw [hsurvives, ← hstop']
      exact ⟨first, hfirst, last, hlast, (RangeMatch.found.inj hrange).symm⟩
    | missing =>
      rw [discussionAnchorRange, hlocate] at hrange
      cases hrange
    | ambiguous =>
      rw [discussionAnchorRange, hlocate] at hrange
      cases hrange

end

/-- No composition, and the diaeresis as the only mark. -/
def diaeresis : Unicode where
  nfc := id
  isMark := fun character => character = [0x308]

/-- A letter, a diaeresis on a space, and a letter. -/
def markedPage : Node := .element (js "P") false false false [.text [97, 32, 0x308, 98]]

/-- The text from the space on. -/
def markedText : Selection := ⟨false, 1, true, true, ⟨[0, 1], [0, 4]⟩, [32, 0x308, 98]⟩

/-- The composition of one syllable of two conjoining letters, and no marks. -/
def syllables : Unicode where
  nfc := fun text => if text = [0x1100, 0x1161] then [0xac00] else text
  isMark := fun _ => false

/-- Two conjoining letters around an inline code that holds a space. -/
def syllablePage : Node :=
  .element (js "DIV") false false false
    [.text [0x1100], .element (js "CODE") false false false [.text [32]], .text [0x1161]]

def wholeText : Selection := ⟨false, 1, true, true, ⟨[0, 0], [2, 1]⟩, [0x1100, 32, 0x1161]⟩

end TsEpistle.Discussions
