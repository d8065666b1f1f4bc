import Mathlib.Data.List.DropRight
import Mathlib.Data.List.TakeWhile

/-!
# Lists of entries in a text

A text is cut into pieces at a separator, and each piece is stripped of the blanks at its
ends. Scanning code looks for the next separator only while there is text left, so it does
not see an empty piece at the end; `scanned` are the pieces that it does see.

`strtok_r` is another scanner. It passes over separators before it begins a token, so it does
not see any empty piece; `tokens` are the pieces that are left. Between two calls it keeps a
pointer into the text, and `strtokR_spec` says that the calls go through the tokens one after
the other.

Two scanners may strip different sets of blanks. They agree on a piece exactly if what the
one that strips less leaves of it is bare for the other one too.
-/

namespace QuicproAsync.Tokens

variable {α : Type*} {blank : α → Bool}

/-! ### Stripping -/

/-- The text without the blanks at both ends. -/
def strip (blank : α → Bool) (text : List α) : List α := (text.dropWhile blank).rdropWhile blank

/-- The text neither begins nor ends with a blank. -/
structure Bare (blank : α → Bool) (text : List α) : Prop where
  first : ∀ item ∈ text.head?, blank item = false
  last : ∀ item ∈ text.getLast?, blank item = false

theorem exists_strip (blank : α → Bool) (text : List α) :
    ∃ left right, text = left ++ (strip blank text ++ right) ∧
      (∀ item ∈ left, blank item = true) ∧ ∀ item ∈ right, blank item = true := by
  refine ⟨text.takeWhile blank, (text.dropWhile blank).rtakeWhile blank, ?_, ?_, ?_⟩
  · unfold strip
    rw [List.rdropWhile_append_rtakeWhile, List.takeWhile_append_dropWhile]
  · intro item hitem
    exact List.mem_takeWhile_imp hitem
  · intro item hitem
    exact List.mem_rtakeWhile_imp hitem

theorem bare_strip (blank : α → Bool) (text : List α) : Bare blank (strip blank text) := by
  constructor
  · intro item hitem
    obtain ⟨right, hright⟩ := List.rdropWhile_prefix blank (text.dropWhile blank)
    have hhead : (text.dropWhile blank).head? = some item := by
      have hsome : (strip blank text).head? = some item := hitem
      rw [← hright, List.head?_append]
      change (strip blank text).head?.or right.head? = some item
      rw [hsome]
      rfl
    have hnot := List.head?_dropWhile_not blank text
    rw [hhead] at hnot
    exact hnot
  · intro item hitem
    have hne : strip blank text ≠ [] := by
      intro hnil
      rw [hnil] at hitem
      cases hitem
    have hlast := List.rdropWhile_last_not blank (text.dropWhile blank) hne
    rw [List.getLast?_eq_some_getLast hne] at hitem
    rw [← Option.some.inj hitem]
    exact Bool.not_eq_true _ ▸ hlast

theorem dropWhile_of_head {first : α} {rest : List α} (hfirst : blank first = false) :
    (first :: rest).dropWhile blank = first :: rest :=
  List.dropWhile_cons_of_neg (Bool.not_eq_true _ ▸ hfirst)

/-- What is left when all that is taken away is blank, and nothing blank is left. -/
theorem strip_of_split {left core right : List α} (hleft : ∀ item ∈ left, blank item = true)
    (hright : ∀ item ∈ right, blank item = true) (hcore : core ≠ []) (hbare : Bare blank core) :
    strip blank (left ++ (core ++ right)) = core := by
  obtain ⟨first, rest, rfl⟩ := List.exists_cons_of_ne_nil hcore
  have hstart : ((first :: rest) ++ right).dropWhile blank = (first :: rest) ++ right :=
    dropWhile_of_head (hbare.first first rfl)
  have hend : ((first :: rest) ++ right).reverse.dropWhile blank = (first :: rest).reverse := by
    rw [List.reverse_append, List.dropWhile_append_of_pos]
    · obtain ⟨last, others, hreverse⟩ :=
        List.exists_cons_of_ne_nil (List.reverse_ne_nil_iff.mpr hcore)
      have hlast : last ∈ (first :: rest).getLast? := by
        rw [List.getLast?_eq_head?_reverse, hreverse]
        rfl
      rw [hreverse]
      exact dropWhile_of_head (hbare.last last hlast)
    · intro item hitem
      exact hright item (List.mem_reverse.mp hitem)
  unfold strip List.rdropWhile
  rw [List.dropWhile_append_of_pos hleft, hstart, hend, List.reverse_reverse]

theorem strip_sublist (blank : α → Bool) (text : List α) : (strip blank text).Sublist text :=
  (List.rdropWhile_prefix blank _).sublist.trans (List.dropWhile_sublist blank)

variable {text : List α}

theorem dropWhile_congr {other : α → Bool} (hsame : ∀ item ∈ text, blank item = other item) :
    text.dropWhile blank = text.dropWhile other := by
  induction text with
  | nil => rfl
  | cons first rest ih =>
    rw [List.forall_mem_cons] at hsame
    rw [List.dropWhile_cons, List.dropWhile_cons, hsame.1, ih hsame.2]

/-- Whether an item counts as blank matters only if it is in the text. -/
theorem strip_congr {other : α → Bool} (hsame : ∀ item ∈ text, blank item = other item) :
    strip blank text = strip other text := by
  unfold strip List.rdropWhile
  rw [dropWhile_congr hsame, dropWhile_congr]
  intro item hitem
  exact hsame item ((List.dropWhile_sublist other).subset (List.mem_reverse.mp hitem))

/-- A set of blanks that is larger makes no difference to a piece that it leaves bare. -/
theorem strip_wider {wide : α → Bool} (hwide : ∀ item, blank item = true → wide item = true)
    (hne : strip blank text ≠ []) (hbare : Bare wide (strip blank text)) :
    strip wide text = strip blank text := by
  obtain ⟨left, right, htext, hleft, hright⟩ := exists_strip blank text
  calc strip wide text = strip wide (left ++ (strip blank text ++ right)) :=
        congrArg (strip wide) htext
    _ = strip blank text :=
        strip_of_split (fun item hitem => hwide item (hleft item hitem))
          (fun item hitem => hwide item (hright item hitem)) hne hbare

/-! ### Pieces -/

variable [DecidableEq α] {separator : α}

/-- The pieces that a scan from separator to separator visits. -/
def scanned (separator : α) (text : List α) : List (List α) :=
  if (text.splitOn separator).getLast? = some [] then (text.splitOn separator).dropLast
  else text.splitOn separator

theorem scanned_nil (separator : α) : scanned separator [] = [] := by
  simp [scanned]

theorem scanned_last (hne : text ≠ []) (hnot : separator ∉ text) :
    scanned separator text = [text] := by
  unfold scanned
  rw [List.splitOn_eq_singleton hnot, if_neg]
  simpa using hne

variable {piece : List α}

theorem scanned_cons (hnot : separator ∉ piece) (rest : List α) :
    scanned separator (piece ++ separator :: rest) = piece :: scanned separator rest := by
  obtain ⟨first, others, hpieces⟩ :=
    List.exists_cons_of_ne_nil (List.splitOn_ne_nil separator rest)
  unfold scanned
  rw [List.splitOn_append_cons_self_of_not_mem hnot, hpieces, List.getLast?_cons_cons]
  split
  · rfl
  · rfl

/-- Only empty pieces are overlooked. -/
theorem mem_scanned (hne : piece ≠ []) :
    piece ∈ scanned separator text ↔ piece ∈ text.splitOn separator := by
  unfold scanned
  split
  · rename_i hlast
    have hsplit := List.dropLast_append_getLast? _ hlast
    constructor
    · intro hpiece
      exact (List.dropLast_sublist _).subset hpiece
    · intro hpiece
      rw [← hsplit] at hpiece
      rcases List.mem_append.mp hpiece with hbefore | hempty
      · exact hbefore
      · exact absurd (List.mem_singleton.mp hempty) hne
  · rfl

theorem mem_splitOn_of_scanned (hscanned : piece ∈ scanned separator text) :
    piece ∈ text.splitOn separator := by
  unfold scanned at hscanned
  split at hscanned
  · exact (List.dropLast_sublist _).subset hscanned
  · exact hscanned

/-- A piece is a part of the text. -/
theorem sublist_of_mem_splitOn (hpiece : piece ∈ text.splitOn separator) :
    piece.Sublist text := by
  induction text generalizing piece with
  | nil =>
    rw [List.splitOn_nil] at hpiece
    rw [List.mem_singleton.mp hpiece]
  | cons first rest ih =>
    rw [List.splitOn_cons_eq_if_modifyHead] at hpiece
    split at hpiece
    · rcases List.mem_cons.mp hpiece with rfl | hlater
      · exact List.nil_sublist _
      · exact (ih hlater).cons first
    · obtain ⟨next, others, hpieces⟩ :=
        List.exists_cons_of_ne_nil (List.splitOn_ne_nil separator rest)
      rw [hpieces] at hpiece ih
      rcases List.mem_cons.mp hpiece with rfl | hlater
      · exact (ih List.mem_cons_self).cons_cons first
      · exact (ih (List.mem_cons_of_mem next hlater)).cons first

/-- A piece has no separator. -/
theorem not_mem_of_mem_splitOn (hpiece : piece ∈ text.splitOn separator) :
    separator ∉ piece := by
  induction text generalizing piece with
  | nil =>
    rw [List.splitOn_nil] at hpiece
    rw [List.mem_singleton.mp hpiece]
    exact List.not_mem_nil
  | cons first rest ih =>
    rw [List.splitOn_cons_eq_if_modifyHead] at hpiece
    split at hpiece
    · rcases List.mem_cons.mp hpiece with rfl | hlater
      · exact List.not_mem_nil
      · exact ih hlater
    · next hother =>
        obtain ⟨next, others, hpieces⟩ :=
          List.exists_cons_of_ne_nil (List.splitOn_ne_nil separator rest)
        rw [hpieces] at hpiece ih
        rcases List.mem_cons.mp hpiece with rfl | hlater
        · rw [List.mem_cons, not_or]
          refine ⟨fun hsame => hother (by simp [hsame]), ih List.mem_cons_self⟩
        · exact ih (List.mem_cons_of_mem next hlater)

/-! ### A scan -/

theorem not_mem_takeWhile (separator : α) (text : List α) :
    separator ∉ text.takeWhile (· ≠ separator) := by
  intro hmem
  simpa using List.mem_takeWhile_imp hmem

/-- The first separator, if there is one, and the text after it. -/
theorem next_separator (separator : α) (text : List α) :
    (separator ∉ text ∧ text.takeWhile (· ≠ separator) = text ∧
      text.dropWhile (· ≠ separator) = []) ∨
    ∃ rest, text = text.takeWhile (· ≠ separator) ++ separator :: rest ∧
      text.dropWhile (· ≠ separator) = separator :: rest := by
  cases hdrop : text.dropWhile (· ≠ separator) with
  | nil =>
    have htext := List.takeWhile_append_dropWhile (p := (· ≠ separator)) (l := text)
    rw [hdrop, List.append_nil] at htext
    refine Or.inl ⟨?_, htext, rfl⟩
    rw [← htext]
    exact not_mem_takeWhile separator text
  | cons first rest =>
    have hfirst : first = separator := by
      have hnot := List.head?_dropWhile_not (· ≠ separator) text
      rw [hdrop] at hnot
      simpa using hnot
    rw [← hfirst] at hdrop ⊢
    refine Or.inr ⟨rest, ?_, rfl⟩
    rw [← hdrop, List.takeWhile_append_dropWhile]

/-- Blanks are skipped before the next separator is looked for. -/
theorem takeWhile_dropWhile (hblank : blank separator = false) (text : List α) :
    (text.dropWhile blank).takeWhile (· ≠ separator) =
      (text.takeWhile (· ≠ separator)).dropWhile blank ∧
    (text.dropWhile blank).dropWhile (· ≠ separator) = text.dropWhile (· ≠ separator) := by
  induction text with
  | nil => exact ⟨rfl, rfl⟩
  | cons first rest ih =>
    cases hfirst : blank first with
    | true =>
      have hother : first ≠ separator := by
        rintro rfl
        rw [hblank] at hfirst
        cases hfirst
      simpa [hfirst, hother] using ih
    | false =>
      by_cases hsame : first = separator
      · simp [hsame, hblank]
      · simp [hfirst, hsame]

/-! ### Tokens -/

/-- The pieces that are not empty. -/
def tokens (separator : α) (text : List α) : List (List α) :=
  (text.splitOn separator).filter (· ≠ [])

theorem tokens_append (left right : List α) :
    tokens separator (left ++ separator :: right) =
      tokens separator left ++ tokens separator right := by
  unfold tokens
  rw [List.splitOn_append_cons_self, List.filter_append]

theorem mem_tokens :
    piece ∈ tokens separator text ↔ piece ∈ text.splitOn separator ∧ piece ≠ [] := by
  rw [tokens, List.mem_filter, decide_eq_true_iff]

theorem tokens_nil (separator : α) : tokens separator [] = [] := by
  simp [tokens]

theorem tokens_of_not_mem (hne : text ≠ []) (hnot : separator ∉ text) :
    tokens separator text = [text] := by
  rw [tokens, List.splitOn_eq_singleton hnot, List.filter_cons_of_pos (by simpa using hne),
    List.filter_nil]

/-- A text with two pieces. -/
theorem tokens_pair {left right : List α} (hleft : left ≠ []) (hright : right ≠ [])
    (hnotLeft : separator ∉ left) (hnotRight : separator ∉ right) :
    tokens separator (left ++ separator :: right) = [left, right] ∧
      (left ++ separator :: right).splitOn separator = [left, right] := by
  rw [tokens_append, tokens_of_not_mem hleft hnotLeft, tokens_of_not_mem hright hnotRight,
    List.splitOn_append_cons_self, List.splitOn_eq_singleton hnotLeft,
    List.splitOn_eq_singleton hnotRight]
  exact ⟨rfl, rfl⟩

/-- If no piece is empty, the tokens are the pieces. -/
theorem tokens_eq_splitOn (hpieces : ∀ piece ∈ text.splitOn separator, piece ≠ []) :
    tokens separator text = text.splitOn separator := by
  apply List.filter_eq_self.mpr
  intro piece hpiece
  exact decide_eq_true (hpieces piece hpiece)

theorem eq_of_splitOn_single (hsplit : text.splitOn separator = [piece]) :
    text = piece := by
  have htext : [separator].intercalate (text.splitOn separator) = text :=
    List.intercalate_splitOn separator
  rw [hsplit, List.intercalate_singleton] at htext
  exact htext.symm

theorem eq_of_splitOn_pair {left right : List α} (hsplit : text.splitOn separator = [left, right]) :
    text = left ++ separator :: right := by
  have htext : [separator].intercalate (text.splitOn separator) = text :=
    List.intercalate_splitOn separator
  rw [hsplit, List.intercalate_cons_cons, List.intercalate_singleton, List.append_assoc] at htext
  exact htext.symm

/-- Separators in front of a text belong to no token. -/
theorem tokens_dropWhile (separator : α) (text : List α) :
    tokens separator (text.dropWhile (· = separator)) = tokens separator text := by
  induction text with
  | nil => rfl
  | cons first rest ih =>
    by_cases hfirst : first = separator
    · subst hfirst
      have hskip : tokens first (first :: rest) = tokens first [] ++ tokens first rest :=
        tokens_append [] rest
      rw [tokens_nil, List.nil_append] at hskip
      rw [List.dropWhile_cons_of_pos (by simp), ih, hskip]
    · rw [List.dropWhile_cons_of_neg (by simpa using hfirst)]

/-- Each token has a character. -/
theorem length_tokens_le (separator : α) (text : List α) :
    (tokens separator text).length ≤ text.length := by
  induction text with
  | nil => simp [tokens_nil]
  | cons first rest ih =>
    unfold tokens at ih ⊢
    rw [List.splitOn_cons_eq_if_modifyHead]
    split
    · rw [List.filter_cons_of_neg (by simp)]
      exact ih.trans (Nat.le_succ _)
    · obtain ⟨piece, others, hpieces⟩ :=
        List.exists_cons_of_ne_nil (List.splitOn_ne_nil separator rest)
      rw [hpieces] at ih ⊢
      have hothers : (others.filter (· ≠ [])).length ≤ rest.length :=
        ((List.sublist_cons_self piece others).filter _).length_le.trans ih
      rw [List.modifyHead_cons, List.filter_cons_of_pos (by simp)]
      simpa using hothers

/-! ### `strtok_r` -/

/-- `strtok_r` with one delimiter, from a text or from what the saved pointer refers to: the token,
    and the pointer that is saved. -/
def strtokR (separator : α) : Option (List α) → Option (List α) × Option (List α)
  | none => (none, none)
  | some text =>
    match text.dropWhile (· = separator) with
    | [] => (none, none)
    | first :: rest =>
      let token := (first :: rest).takeWhile (· ≠ separator)
      match (first :: rest).dropWhile (· ≠ separator) with
      | [] => (some token, none)
      | _ :: later => (some token, some later)

/-- The tokens that a saved pointer still leads to. -/
def ahead (separator : α) : Option (List α) → List (List α)
  | none => []
  | some text => tokens separator text

/-- A call gives the first of the tokens ahead and leaves the others. -/
theorem strtokR_spec (separator : α) (saved : Option (List α)) :
    (strtokR separator saved).1 = (ahead separator saved).head? ∧
      ahead separator (strtokR separator saved).2 = (ahead separator saved).tail := by
  cases saved with
  | none => exact ⟨rfl, rfl⟩
  | some text =>
    rw [ahead, ← tokens_dropWhile, strtokR]
    cases hdrop : text.dropWhile (· = separator) with
    | nil =>
      rw [tokens_nil]
      exact ⟨rfl, rfl⟩
    | cons first rest =>
      have hfirst : first ≠ separator := by
        have hnot := List.head?_dropWhile_not (· = separator) text
        rw [hdrop] at hnot
        simpa using hnot
      have htoken : (first :: rest).takeWhile (· ≠ separator) ≠ [] := by
        rw [List.takeWhile_cons_of_pos (by simpa using hfirst)]
        exact List.cons_ne_nil _ _
      dsimp only
      rcases next_separator separator (first :: rest) with
        ⟨hnot, hall, hend⟩ | ⟨later, hsplit, hend⟩
      · rw [hend, hall, tokens_of_not_mem (List.cons_ne_nil _ _) hnot]
        exact ⟨rfl, rfl⟩
      · rw [hend]
        have htokens : tokens separator (first :: rest) =
            (first :: rest).takeWhile (· ≠ separator) :: tokens separator later := by
          conv_lhs => rw [hsplit]
          rw [tokens_append, tokens_of_not_mem htoken (not_mem_takeWhile separator _)]
          rfl
        rw [htokens]
        exact ⟨rfl, rfl⟩

/-- Two calls give the first two tokens. -/
theorem strtokR_twice (separator : α) (text : List α) :
    (strtokR separator (some text)).1 = (tokens separator text).head? ∧
      (strtokR separator (strtokR separator (some text)).2).1 =
        (tokens separator text).tail.head? := by
  obtain ⟨hfirst, hrest⟩ := strtokR_spec separator (some text)
  refine ⟨hfirst, ?_⟩
  rw [(strtokR_spec separator _).1, hrest]
  rfl

/-- The loop over the tokens. It ends at the first token that the check refuses. -/
def forTokens (separator : α) (check : List α → Bool) : Nat → Option (List α) → Bool
  | 0, _ => false
  | fuel + 1, saved =>
    match strtokR separator saved with
    | (none, _) => true
    | (some token, saved) =>
      if check token then forTokens separator check fuel saved else false

theorem forTokens_eq_all {check : List α → Bool} {fuel : Nat} {saved : Option (List α)}
    (hfuel : (ahead separator saved).length < fuel) :
    forTokens separator check fuel saved = (ahead separator saved).all check := by
  induction fuel generalizing saved with
  | zero => exact absurd hfuel (Nat.not_lt_zero _)
  | succ fuel ih =>
    obtain ⟨htoken, hrest⟩ := strtokR_spec separator saved
    rw [forTokens]
    generalize strtokR separator saved = result at htoken hrest
    obtain ⟨token, later⟩ := result
    cases hahead : ahead separator saved with
    | nil =>
      rw [hahead] at htoken
      cases htoken
      rfl
    | cons first others =>
      rw [hahead] at htoken hrest hfuel
      cases htoken
      dsimp only at hrest ⊢
      rw [ih (by rw [hrest]; exact Nat.lt_of_succ_lt_succ hfuel), hrest, List.all_cons]
      cases check first <;> rfl

/-- The loop over a text, with a turn for each character and one for the end. -/
theorem forTokens_text (separator : α) (check : List α → Bool) (text : List α) :
    forTokens separator check (text.length + 1) (some text) = (tokens separator text).all check :=
  forTokens_eq_all (Nat.lt_succ_of_le (length_tokens_le separator text))

end QuicproAsync.Tokens
