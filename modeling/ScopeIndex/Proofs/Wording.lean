import Mathlib
import ScopeIndex.Command.Run
import ScopeIndex.Proofs.Coverage
import ScopeIndex.Proofs.Separators

/-!
# The words for failures

Failures of the indexing family name a path, and their causes are told without any of the
characters that set off the parts of a line.  So the words for such a failure tell the path: it
stands before the last colon.

A fault of the system is told behind the path of the file, and the path by which the file was opened
may come again at the end, in quotes.  Within quotes a quote is escaped, so from the end of the line
one comes back to the opening one, which stands behind a blank; and the words in front of it have no
colon.  So these lines tell the path as well, and cannot be taken for the words of the other kind.

## Main definitions

* `IsUnmarked` — a text without the characters that set off the parts of a line.
* `Failure.Names` — a failure names a path.
* `Quoted.Guarded` — a text in which quotes are escaped.

## Main results

* `Document.names_of_indexFile` — every failure names the path that the file was indexed under.
* `Failure.name_eq_of_message_eq` — the words for a failure tell the path it names.
* `Quoted.eq_of_append_ofText_eq` — what stands in front of a quoted text can be told.
* `Gathered.path_eq_of_told_system_eq` — what is told of a fault of the system tells the path.
* `Gathered.told_system_ne_message` — it is not what is told of another failure.
-/

namespace ScopeIndex

/-! ### Quoted texts -/

theorem le_of_isPlainChar {c : Char} (h : isPlainChar c = true) : 32 ≤ c.toNat := by
  simp only [isPlainChar, Bool.and_eq_true, decide_eq_true_eq] at h
  exact h.1.1.1

theorem isPlainChar_of_isAlphanum {c : Char} (h : c.isAlphanum = true) : isPlainChar c = true := by
  have hne : ∀ x : Char, x.isAlphanum = false → c ≠ x := by
    rintro x hx rfl
    rw [h] at hx
    cases hx
  have hle : 32 ≤ c.toNat := by
    simp only [Char.isAlphanum, Char.isAlpha, Char.isUpper, Char.isLower, Char.isDigit,
      Bool.or_eq_true, Bool.and_eq_true, decide_eq_true_eq, ge_iff_le, UInt32.le_iff_toNat_le,
      Char.reduceVal, UInt32.reduceToNat] at h
    rw [Char.toNat]
    omega
  simp [isPlainChar, hle, hne ':' (by decide), hne Quoted.single (by decide),
    hne Quoted.double (by decide)]

namespace Quoted

variable {q c : Char} {cs ds : List Char}

/-- Does a backslash stand before every quote `q`? -/
def Guarded (q : Char) (cs : List Char) : Prop :=
  ∀ before after, cs = before ++ q :: after → before.getLast? = some '\\'

theorem guarded_of_not_mem (h : q ∉ cs) : Guarded q cs := by
  rintro before after rfl
  exact absurd (List.mem_append_right _ List.mem_cons_self) h

theorem Guarded.append (h : Guarded q cs) (h' : Guarded q ds) : Guarded q (cs ++ ds) := by
  intro before after heq
  rcases List.append_eq_append_iff.mp heq with ⟨rest, rfl, hds⟩ | ⟨rest, hcs, hrest⟩
  · -- the quote is in the second part, and is not the first character of it
    have hlast := h' _ _ hds
    rw [List.getLast?_append, hlast]
    rfl
  · cases rest with
    | nil =>
      rw [List.append_nil] at hcs
      have hlast := h' [] after hrest.symm
      cases hlast
    | cons x rest =>
      obtain ⟨rfl, -⟩ := List.cons.inj hrest
      exact h _ _ hcs

theorem isAlphanum_digitChar {n : Nat} (h : n < 16) : (Nat.digitChar n).isAlphanum = true := by
  revert n
  decide

/-- A hidden character is told by a backslash, letters and digits. -/
theorem of_mem_hiddenForm {x : Char} (h : x ∈ hiddenForm c) : x = '\\' ∨ x.isAlphanum = true := by
  have hdigits : ∀ width, x ∈ hexDigits width c.toNat → x.isAlphanum = true := by
    intro width hx
    obtain ⟨i, -, rfl⟩ := List.mem_map.mp hx
    exact isAlphanum_digitChar (Nat.mod_lt _ (by decide))
  simp only [hiddenForm] at h
  split_ifs at h
  all_goals
    rcases List.mem_cons.mp h with rfl | h
    · exact .inl rfl
    · rcases List.mem_cons.mp h with rfl | h
      · exact .inr (by decide)
      · exact .inr (hdigits _ h)

/-- What a character becomes between quotes. -/
theorem charForm_cases (q c : Char) :
    (c = q ∨ c = '\\') ∧ charForm q c = ['\\', c] ∨
      (∀ x ∈ charForm q c, x = '\\' ∨ x.isAlphanum = true) ∨
      c ≠ q ∧ 32 ≤ c.toNat ∧ charForm q c = [c] := by
  have hletter : ∀ y : Char, y.isAlphanum = true →
      ∀ x ∈ ['\\', y], x = '\\' ∨ x.isAlphanum = true := by
    intro y hy x hx
    rcases List.mem_cons.mp hx with rfl | hx
    · exact .inl rfl
    · exact .inr (by rwa [List.mem_singleton.mp hx])
  unfold charForm
  split_ifs with hquote hline hreturn htab hhidden
  · exact .inl ⟨hquote, rfl⟩
  · exact .inr (.inl (hletter _ (by decide)))
  · exact .inr (.inl (hletter _ (by decide)))
  · exact .inr (.inl (hletter _ (by decide)))
  · exact .inr (.inl fun x => of_mem_hiddenForm)
  · refine .inr (.inr ⟨fun heq => hquote (.inl heq), ?_, rfl⟩)
    simp only [Hidden.has, Bool.or_eq_true, decide_eq_true_eq, not_or] at hhidden
    omega

/-- Is it one of the two quotes? -/
def IsQuote (q : Char) : Prop := q = single ∨ q = double

theorem quoteFor_isQuote (cs : List Char) : IsQuote (quoteFor cs) := by
  unfold quoteFor
  split
  · exact .inr rfl
  · exact .inl rfl

namespace IsQuote

theorem ne_backslash (h : IsQuote q) : q ≠ '\\' := by rcases h with rfl | rfl <;> decide

theorem ne_blank (h : IsQuote q) : q ≠ ' ' := by rcases h with rfl | rfl <;> decide

theorem le_toNat (h : IsQuote q) : 32 ≤ q.toNat := by rcases h with rfl | rfl <;> decide

theorem isPlainChar_eq (h : IsQuote q) : isPlainChar q = false := by
  rcases h with rfl | rfl <;> decide

end IsQuote

theorem guarded_charForm (hq : IsQuote q) (c : Char) : Guarded q (charForm q c) := by
  rcases charForm_cases q c with ⟨-, hform⟩ | hplain | ⟨hne, -, hform⟩
  · rw [hform]
    intro before after heq
    cases before with
    | nil => exact absurd (List.cons.inj heq).1.symm hq.ne_backslash
    | cons x before =>
      obtain ⟨rfl, heq⟩ := List.cons.inj heq
      cases before with
      | nil => rfl
      | cons y before => cases before <;> cases (List.cons.inj heq).2
  · refine guarded_of_not_mem fun hmem => ?_
    rcases hplain q hmem with heq | halpha
    · exact hq.ne_backslash heq
    · have hquote := hq.isPlainChar_eq
      rw [isPlainChar_of_isAlphanum halpha] at hquote
      cases hquote
  · rw [hform]
    exact guarded_of_not_mem (by simpa using hne.symm)

theorem guarded_flatMap (hq : IsQuote q) (cs : List Char) :
    Guarded q (cs.flatMap (charForm q)) := by
  induction cs with
  | nil => exact guarded_of_not_mem List.not_mem_nil
  | cons c cs ih =>
    rw [List.flatMap_cons]
    exact (guarded_charForm hq c).append ih

/-- From the end of a text in which quotes are escaped one comes back to a quote behind a blank. -/
theorem eq_of_append_guarded_eq {us us' : List Char} (hq : q ≠ ' ') (h : Guarded q cs)
    (h' : Guarded q ds) (heq : us ++ ' ' :: q :: cs = us' ++ ' ' :: q :: ds) : us = us' := by
  -- of two such blanks the first would be a character before an escaped quote
  have hnone : ∀ {ys : List Char} (x : Char) (xs : List Char), Guarded q ys →
      ∀ zs, ' ' :: q :: ys ≠ x :: xs ++ ' ' :: q :: zs := by
    intro ys x xs hguarded zs heq
    obtain ⟨-, heq⟩ := List.cons.inj heq
    cases xs with
    | nil => exact hq (List.cons.inj heq).1
    | cons y xs =>
      have hlast := hguarded (xs ++ [' ']) zs (by simpa using (List.cons.inj heq).2)
      rw [List.getLast?_concat] at hlast
      cases hlast
  rcases List.append_eq_append_iff.mp heq with ⟨rest, rfl, hrest⟩ | ⟨rest, rfl, hrest⟩
  · cases rest with
    | nil => rw [List.append_nil]
    | cons x rest => exact absurd hrest (hnone x rest h ds)
  · cases rest with
    | nil => rw [List.append_nil]
    | cons x rest => exact absurd hrest (hnone x rest h' cs)

theorem toList_ofText (s : String) : ∃ q body, IsQuote q ∧ Guarded q body ∧
    (ofText s).toList = q :: body ++ [q] :=
  ⟨_, _, quoteFor_isQuote _, guarded_flatMap (quoteFor_isQuote _) _, String.toList_ofList⟩

/-- What stands in front of a quoted text can be told. -/
theorem eq_of_append_ofText_eq {us us' : List Char} {s s' : String}
    (h : us ++ ' ' :: (ofText s).toList = us' ++ ' ' :: (ofText s').toList) : us = us' := by
  obtain ⟨q, body, hq, hbody, heq⟩ := toList_ofText s
  obtain ⟨q', body', -, hbody', heq'⟩ := toList_ofText s'
  rw [heq, heq', ← List.cons_append, ← List.cons_append, ← List.append_assoc, ← List.append_assoc]
    at h
  obtain ⟨h, hlast⟩ := List.append_inj' h rfl
  obtain rfl := List.singleton_inj.mp hlast
  exact eq_of_append_guarded_eq hq.ne_blank hbody hbody' h

/-- Control characters are escaped. -/
theorem le_of_mem_ofText {s : String} (h : c ∈ (ofText s).toList) : 32 ≤ c.toNat := by
  have hquote := (quoteFor_isQuote s.toList).le_toNat
  rw [ofText, String.toList_ofList] at h
  simp only [List.cons_append, List.mem_cons, List.mem_append, List.mem_flatMap, List.not_mem_nil,
    or_false] at h
  rcases h with rfl | ⟨x, -, hx⟩ | rfl
  · exact hquote
  · rcases charForm_cases (quoteFor s.toList) x with ⟨heq, hform⟩ | hform | ⟨-, hle, hform⟩
    · rw [hform] at hx
      rcases List.mem_cons.mp hx with rfl | hx
      · decide
      · obtain rfl := List.mem_singleton.mp hx
        rcases heq with rfl | rfl
        · exact hquote
        · decide
    · rcases hform c hx with rfl | halpha
      · decide
      · exact le_of_isPlainChar (isPlainChar_of_isAlphanum halpha)
    · rw [hform] at hx
      rwa [List.mem_singleton.mp hx]
  · exact hquote

end Quoted

/-! ### Words without marks -/

/-- The characters that set off the parts of a line and of a path, and those that are not printed
as they are. -/
def marks : List Char := [':', '/', '[', Quoted.single, Quoted.double, '\x1b', '\r']

/-- Is a text free of marks? -/
def IsUnmarked (s : String) : Prop := s.toList.all (!marks.contains ·) = true

instance (s : String) : Decidable (IsUnmarked s) := inferInstanceAs (Decidable (_ = true))

theorem isUnmarked_iff {s : String} : IsUnmarked s ↔ ∀ c ∈ marks, c ∉ s.toList := by
  simp only [IsUnmarked, List.all_eq_true, Bool.not_eq_true', List.contains_eq_mem,
    decide_eq_false_iff_not]
  exact forall_congr' fun c => imp_not_comm

theorem isDigit_of_mem_repr {n : Nat} {c : Char} (h : c ∈ n.repr.toList) : c.isDigit = true := by
  rw [Nat.repr, String.toList_ofList] at h
  exact Nat.isDigit_of_mem_toDigits (by decide) (by decide) h

namespace IsUnmarked

variable {s t : String}

theorem append (hs : IsUnmarked s) (ht : IsUnmarked t) : IsUnmarked (s ++ t) := by
  rw [isUnmarked_iff] at hs ht ⊢
  intro c hc
  rw [String.toList_append, List.mem_append, not_or]
  exact ⟨hs c hc, ht c hc⟩

theorem natRepr (n : Nat) : IsUnmarked n.repr := by
  rw [isUnmarked_iff]
  intro c hmark hc
  have hmarks : marks.all (!·.isDigit) = true := by decide
  simpa [isDigit_of_mem_repr hc] using List.all_eq_true.mp hmarks c hmark

theorem intRepr (n : Int) : IsUnmarked n.repr := by
  cases n with
  | ofNat n => exact natRepr n
  | negSucc n => exact append (by decide +kernel) (natRepr _)

end IsUnmarked

/-- The words for want of a scope. -/
theorem ScopeFault.isUnmarked_text {fault : ScopeFault} (h : fault.isWant = true) :
    IsUnmarked fault.text := by
  cases fault with
  | noneOpen => decide +kernel
  | outOfReach skip =>
    have hbefore : IsUnmarked "no scope open " := by decide +kernel
    have hafter : IsUnmarked " level(s) out" := by decide +kernel
    exact (hbefore.append (.intRepr skip)).append hafter
  | unopened | mismatched | leftOpen => cases h

/-! ### What a failure names -/

/-- A failure names a path, and its cause is told in words without marks. -/
def Failure.Names (failure : Failure) (path : String) : Prop :=
  ∃ cause : Cause, failure = .ofCause path cause ∧ IsUnmarked cause.text

namespace Document

variable {d : Document} {path : String} {s : Settings} {failure : Failure}

theorem names_of_parse {tolerant : Bool} (h : (d.parse path tolerant).result = .error failure) :
    failure.Names path := by
  unfold parse at h
  split at h
  · cases h
    exact ⟨.noTree, rfl, by decide +kernel⟩
  · split at h
    · simp only at h
      split at h
      · cases h
      · cases h
        have hbefore : IsUnmarked "syntax error near line " := by decide +kernel
        exact ⟨.unparsable _, rfl, hbefore.append (.natRepr _)⟩
    · cases h

theorem names_of_indexTree {source : Source} {tree : Tree}
    (h : (indexTree source tree path s.indexRules).result = .error failure) :
    failure.Names path := by
  obtain ⟨stop, hrun, rfl⟩ := Job.exists_stop_of_indexTree h
  -- a scope is closed by the node that opens it
  obtain ⟨fault, hwant, hstop⟩ := Job.run_want rfl hrun
  exact ⟨.scope fault, hstop, ScopeFault.isUnmarked_text hwant⟩

/-- Every failure names the path that the file was indexed under. -/
theorem names_of_indexFile (h : (d.indexFile path s.indexRules).result = .error failure) :
    failure.Names path := by
  unfold indexFile at h
  split at h
  · cases h
    exact ⟨.nothingToIndex, rfl, by decide +kernel⟩
  · unfold Document.index at h
    simp only at h
    split at h
    · next failure' hparse =>
      cases h
      exact names_of_parse hparse
    · split at h
      · next failure' hwalk =>
        cases h
        exact names_of_indexTree hwalk
      · cases h

end Document

namespace Failure

variable {name name' : String} {cause cause' : Cause}

theorem toList_message_ofCause (name : String) (cause : Cause) :
    (ofCause name cause).message.toList = if name = "" then cause.text.toList
      else name.toList ++ ':' :: ' ' :: cause.text.toList := by
  by_cases h : name = ""
  · simp [ofCause, message, IndexingError.message, h]
  · simp [ofCause, message, IndexingError.message, h]

theorem name_prefix_message (name : String) (cause : Cause) :
    name.toList <+: (ofCause name cause).message.toList := by
  rw [toList_message_ofCause]
  split
  · next h =>
    rw [h]
    exact List.nil_prefix
  · exact List.prefix_append _ _

theorem mem_message {c : Char} (h : c ∈ (ofCause name cause).message.toList) :
    c ∈ name.toList ∨ c ∈ [':', ' '] ∨ c ∈ cause.text.toList := by
  rw [toList_message_ofCause] at h
  split at h
  · exact .inr (.inr h)
  · simpa [or_assoc] using h

theorem count_slash_message (h : IsUnmarked cause.text) :
    (ofCause name cause).message.toList.count '/' = name.toList.count '/' := by
  have hcause : cause.text.toList.count '/' = 0 :=
    List.count_eq_zero.mpr (isUnmarked_iff.mp h _ (by decide))
  rw [toList_message_ofCause]
  split
  · next hname => rw [hname, hcause]; rfl
  · simp [hcause]

/-- The words for a failure tell the path it names. -/
theorem name_eq_of_message_eq (h : IsUnmarked cause.text) (h' : IsUnmarked cause'.text)
    (heq : (ofCause name cause).message = (ofCause name' cause').message) : name = name' := by
  have hcolon : ':' ∉ cause.text.toList := isUnmarked_iff.mp h _ (by decide)
  have hcolon' : ':' ∉ cause'.text.toList := isUnmarked_iff.mp h' _ (by decide)
  rw [← String.toList_inj, toList_message_ofCause, toList_message_ofCause] at heq
  -- there is a colon just if there is a name
  split at heq <;> split at heq
  · next hname hname' => rw [hname, hname']
  · exact absurd (heq ▸ List.mem_append_right _ List.mem_cons_self) hcolon
  · exact absurd (heq ▸ List.mem_append_right _ List.mem_cons_self) hcolon'
  · exact String.toList_inj.mp (Separated.eq_of_append_cons_eq (by simpa using hcolon)
      (by simpa using hcolon') heq).1

/-- The words for a failure do not end with a quote. -/
theorem getLast?_message_ne (h : IsUnmarked cause.text) {q : Char} (hq : Quoted.IsQuote q) :
    (ofCause name cause).message.toList.getLast? ≠ some q := by
  have hmark : q ∈ marks := by rcases hq with rfl | rfl <;> decide
  intro hlast
  rw [toList_message_ofCause] at hlast
  split at hlast
  · exact isUnmarked_iff.mp h q hmark (List.mem_of_getLast? hlast)
  · rw [List.getLast?_append_of_ne_nil _ (List.cons_ne_nil _ _), List.getLast?_cons_cons] at hlast
    rcases List.mem_cons.mp (List.mem_of_getLast? hlast) with heq | hmem
    · exact hq.ne_blank heq
    · exact isUnmarked_iff.mp h q hmark hmem

end Failure

/-! ### Faults of the system -/

namespace SystemFault

variable {fault : SystemFault} {c : Char}

theorem isPlainChar_of_mem_text (h : c ∈ fault.text.toList) : isPlainChar c = true := by
  simp only [text, String.toList_append, List.mem_append] at h
  rcases h with ((h | h) | h) | h
  · have hall : "[Errno ".toList.all isPlainChar = true := by decide +kernel
    exact List.all_eq_true.mp hall c h
  · have hdigit : c.isDigit = true := isDigit_of_mem_repr h
    exact isPlainChar_of_isAlphanum (by rw [Char.isAlphanum, hdigit, Bool.or_true])
  · have hall : "] ".toList.all isPlainChar = true := by decide +kernel
    exact List.all_eq_true.mp hall c h
  · exact List.all_eq_true.mp fault.plain c h

theorem bracket_mem_text (fault : SystemFault) : '[' ∈ fault.text.toList := by
  simp [text]

theorem not_mem_text (h : isPlainChar c = false) : c ∉ fault.text.toList := by
  intro hmem
  rw [isPlainChar_of_mem_text hmem] at h
  cases h

end SystemFault

namespace Gathered

variable {path path' : String} {e e' : SystemError} {c : Char}

theorem toList_told_system (path : String) (e : SystemError) :
    (told path (.system e)).toList = path.toList ++ ':' :: ' ' :: (e.fault.text.toList ++
      if e.fault.opening then ':' :: ' ' :: (Quoted.ofText e.path).toList else []) := by
  cases h : e.fault.opening <;> simp [told, Failure.message, SystemError.message, h]

/-- What is told ends with a quote just if the file could not be opened. -/
theorem getLast?_told_system (path : String) (e : SystemError) :
    ∃ c, (told path (.system e)).toList.getLast? = some c ∧
      (Quoted.IsQuote c ↔ e.fault.opening = true) := by
  rw [toList_told_system]
  cases e.fault.opening with
  | true =>
    obtain ⟨q, body, hq, -, heq⟩ := Quoted.toList_ofText e.path
    exact ⟨q, by simp [heq, List.getLast?_cons], iff_of_true hq rfl⟩
  | false =>
    have hne : e.fault.text.toList ≠ [] := List.ne_nil_of_mem e.fault.bracket_mem_text
    refine ⟨e.fault.text.toList.getLast hne, ?_, iff_of_false (fun hq => ?_) Bool.false_ne_true⟩
    · simp [List.getLast?_cons, List.getLast?_eq_some_getLast hne]
    · exact SystemFault.not_mem_text hq.isPlainChar_eq (List.getLast_mem hne)

/-- What is told of a fault of the system tells the path of the file. -/
theorem path_eq_of_told_system_eq (h : told path (.system e) = told path' (.system e')) :
    path = path' := by
  have hcolon : ∀ fault : SystemFault, ':' ∉ ' ' :: fault.text.toList := by
    intro fault
    simpa using SystemFault.not_mem_text (by decide)
  -- both end with the name of the file, or neither does
  have hopening : e.fault.opening = e'.fault.opening := by
    obtain ⟨c, hlast, hc⟩ := getLast?_told_system path e
    obtain ⟨c', hlast', hc'⟩ := getLast?_told_system path' e'
    rw [h, hlast'] at hlast
    cases hlast
    rw [Bool.eq_iff_iff, ← hc, hc']
  rw [← String.toList_inj, toList_told_system, toList_told_system, hopening] at h
  have hcut : path.toList ++ ':' :: ' ' :: e.fault.text.toList =
      path'.toList ++ ':' :: ' ' :: e'.fault.text.toList := by
    cases hopens : e'.fault.opening with
    | false => simpa [hopens] using h
    | true =>
      have hquoted : (path.toList ++ ':' :: ' ' :: e.fault.text.toList ++ [':']) ++
          ' ' :: (Quoted.ofText e.path).toList =
          (path'.toList ++ ':' :: ' ' :: e'.fault.text.toList ++ [':']) ++
          ' ' :: (Quoted.ofText e'.path).toList := by
        simpa [hopens] using h
      exact (List.append_inj' (Quoted.eq_of_append_ofText_eq hquoted) rfl).1
  exact String.toList_inj.mp (Separated.eq_of_append_cons_eq (hcolon _) (hcolon _) hcut).1

/-- What is told of a fault of the system is not told of a failure that names a path. -/
theorem told_system_ne_message {name : String} {cause : Cause} (hcause : IsUnmarked cause.text) :
    told path (.system e) ≠ (Failure.ofCause name cause).message := by
  intro h
  obtain ⟨c, hlast, hc⟩ := getLast?_told_system path e
  cases hopens : e.fault.opening with
  | true =>
    rw [h] at hlast
    exact Failure.getLast?_message_ne hcause (hc.mpr hopens) hlast
  | false =>
    have hcolon : ':' ∉ cause.text.toList := isUnmarked_iff.mp hcause _ (by decide)
    rw [← String.toList_inj, toList_told_system, hopens, Failure.toList_message_ofCause] at h
    simp only [Bool.false_eq_true, if_false, List.append_nil] at h
    split at h
    · exact hcolon (h ▸ List.mem_append_right _ List.mem_cons_self)
    · have htext := (Separated.eq_of_append_cons_eq
        (by simpa using SystemFault.not_mem_text (by decide)) (by simpa using hcolon) h).2
      refine isUnmarked_iff.mp hcause '[' (by decide) ?_
      rw [← (List.cons.inj htext).2]
      exact e.fault.bracket_mem_text

/-- Control characters stand in the path only. -/
theorem mem_told_system (h : c ∈ (told path (.system e)).toList) :
    c ∈ path.toList ∨ 32 ≤ c.toNat := by
  have hcolon : ∀ {cs : List Char}, (c ∈ cs → 32 ≤ c.toNat) → c ∈ ':' :: ' ' :: cs →
      32 ≤ c.toNat := by
    intro cs hcs hmem
    rcases List.mem_cons.mp hmem with rfl | hmem
    · decide
    · rcases List.mem_cons.mp hmem with rfl | hmem
      · decide
      · exact hcs hmem
  rw [toList_told_system, List.mem_append] at h
  refine h.imp_right (hcolon fun hmem => ?_)
  rcases List.mem_append.mp hmem with hmem | hmem
  · exact le_of_isPlainChar (SystemFault.isPlainChar_of_mem_text hmem)
  · split at hmem
    · exact hcolon Quoted.le_of_mem_ofText hmem
    · cases hmem

end Gathered

end ScopeIndex
