import Mathlib.Data.List.Induction
import Mathlib.Data.List.TakeWhile
import TemplateWeaver.Proofs.Source.Reader

/-!
Text that ends in a line comment. Comments are looked for with a mark in place of each byte of a line comment: there
is one on the last line exactly if the reader ends in a line comment, unless the text has such a byte of its own there
(`endsInLineComment_iff_after`). The reader ends in a line comment exactly if the comment takes up whatever may follow
on the line (`mask_takes_up_iff`); anywhere else some text shows.
-/
namespace TemplateWeaver.Source

open Text (encode byteSize encode_append)

/-! ### The last line -/

/-- A line feed in what follows begins the last line anew. -/
theorem lastLine_append (bs ds : List UInt8) :
    lastLine (bs ++ ds) = if lineFeed ∈ ds then lastLine ds else lastLine bs ++ ds := by
  by_cases feed : lineFeed ∈ ds
  · have short : ¬ (ds.reverse.takeWhile (· ≠ lineFeed)).length = ds.reverse.length := by
      intro whole
      have same := (List.takeWhile_prefix _).eq_of_length whole
      have := List.takeWhile_eq_self_iff.mp same lineFeed (List.mem_reverse.mpr feed)
      simp at this
    rw [if_pos feed, lastLine, lastLine, List.reverse_append, List.takeWhile_append, if_neg short]
  · have all : ∀ b ∈ ds.reverse, decide (b ≠ lineFeed) = true := by
      intro b member
      rw [decide_eq_true_eq]
      rintro rfl
      exact feed (List.mem_reverse.mp member)
    rw [if_neg feed, lastLine, lastLine, List.reverse_append, List.takeWhile_append_of_pos all, List.reverse_append,
      List.reverse_reverse]

theorem lastLine_flat {bs : List UInt8} (flat : lineFeed ∉ bs) : lastLine bs = bs := by
  have whole := lastLine_append [] bs
  rwa [if_neg flat, List.nil_append] at whole

/-- The last line has a mark in what follows, or before it if that goes on with the line. -/
theorem mark_mem_append (bs ds : List UInt8) :
    commentMark ∈ lastLine (bs ++ ds) ↔
      commentMark ∈ lastLine ds ∨ commentMark ∈ lastLine bs ∧ lineFeed ∉ ds := by
  rw [lastLine_append]
  by_cases feed : lineFeed ∈ ds
  · simp [feed]
  · simp [feed, lastLine_flat feed, or_comm]

/-! ### Where line comments begin -/

namespace State

variable {s : State} {c : Char} {cs : List Char}

theorem start_ne_lineComment : start c ≠ .lineComment := by
  rw [start]
  repeat' split
  all_goals simp

theorem inside_ne_lineComment {quote : Quote} : inside quote c ≠ .lineComment := by
  rw [inside]
  repeat' split
  all_goals simp

theorem insideTriple_ne_lineComment {quote : Quote} : insideTriple quote c ≠ .lineComment := by
  rw [insideTriple]
  repeat' split
  all_goals simp

/-- Line comments begin at a slash. -/
theorem step_eq_lineComment (comment : s.step c = .lineComment) :
    (s = .slash ∧ c = '/') ∨ (s = .lineComment ∧ c ≠ '\n') := by
  cases s with
  | code => exact absurd comment start_ne_lineComment
  | slash =>
    by_cases isSlash : c = '/'
    · exact .inl ⟨rfl, isSlash⟩
    · simp only [step, isSlash, ↓reduceIte] at comment
      split at comment
      · simp at comment
      · exact absurd comment start_ne_lineComment
  | lineComment =>
    refine .inr ⟨rfl, ?_⟩
    rintro rfl
    simp [step] at comment
  | blockComment | star | opened | paired | closing =>
    simp only [step] at comment
    repeat' split at comment
    all_goals
      first
      | cases comment
      | exact absurd comment start_ne_lineComment
      | exact absurd comment inside_ne_lineComment
      | exact absurd comment insideTriple_ne_lineComment
  | literal quote triple =>
    cases triple
    · exact absurd comment inside_ne_lineComment
    · exact absurd comment insideTriple_ne_lineComment
  | escaped => simp [step] at comment

/-- Line comments end with their line. -/
theorem eq_lineFeed_of_step (ends : State.lineComment.step c ≠ .lineComment) : c = '\n' := by
  by_contra notFeed
  exact ends (by simp [step, notFeed])

/-- What line comments are overwritten with shows in line comments only. -/
theorem write_fill (other : s.step c ≠ .lineComment) (fill : Char) : s.write fill c = s.write ' ' c := by
  cases s with
  | slash =>
    have notSlash : c ≠ '/' := by
      rintro rfl
      exact other rfl
    simp [write, notSlash]
  | lineComment => simp [write, eq_lineFeed_of_step other]
  | literal quote triple => cases triple <;> rfl
  | _ => rfl

/-- A character that begins a line comment or goes on with one leaves a mark behind the last line feed. -/
theorem mark_mem_write (comment : s.step c = .lineComment) : commentMark ∈ lastLine (encode (s.write '\x01' c)) := by
  rcases step_eq_lineComment comment with ⟨rfl, rfl⟩ | ⟨rfl, notFeed⟩
  · decide
  · have marks : encode (State.lineComment.write '\x01' c) = List.replicate c.utf8Size commentMark := by
      rw [write, if_neg notFeed, encode_replicate (by decide)]
      rfl
    have size := c.utf8Size_pos
    rw [marks, lastLine_flat (by simp [show lineFeed ≠ commentMark by decide])]
    exact List.mem_replicate.mpr ⟨by omega, rfl⟩

/-- A mark on the last line comes from a comment that goes on to the end, or is the text's own. -/
theorem mark_mem_output (cs : List Char) :
    commentMark ∈ lastLine (encode (State.code.output '\x01' cs)) ↔
      State.code.after cs = .lineComment ∨ commentMark ∈ lastLine (encode (State.code.output ' ' cs)) := by
  induction cs using List.reverseRecOn with
  | nil => simp [output, lastLine]
  | append_singleton cs c ih =>
    have last : ∀ fill, State.code.output fill (cs ++ [c])
        = State.code.output fill cs ++ (State.code.after cs).write fill c := by
      intro fill
      rw [output_append]
      simp [output]
    rw [last, last, encode_append, encode_append, mark_mem_append, mark_mem_append, after_append, after_cons, after_nil]
    by_cases comment : (State.code.after cs).step c = .lineComment
    · simp [comment, mark_mem_write comment]
    · rw [write_fill comment, ih]
      by_cases inside : State.code.after cs = .lineComment
      · -- The comment ends here, and the last line is begun anew.
        rw [inside] at comment ⊢
        simp [eq_lineFeed_of_step comment, step, write]
      · simp [comment, inside]

theorem mark_mem_run (fill : Char) (cs : List Char) :
    commentMark ∈ lastLine (encode (State.code.run fill cs)) ↔
      commentMark ∈ lastLine (encode (State.code.output fill cs)) := by
  have unmarked : ∀ s : State, lineFeed ∉ encode s.flush ∧ commentMark ∉ encode s.flush := by
    intro s
    unfold flush
    split
    · decide
    · split <;> decide
    · decide
  obtain ⟨flat, absent⟩ := unmarked (State.code.after cs)
  rw [run, encode_append, mark_mem_append, lastLine_flat flat]
  simp [flat, absent]

end State

theorem bytes_mask (code : String) : Text.bytes (mask code) = encode (State.code.run ' ' code.toList) := by
  rw [mask_eq, Text.bytes_ofList]

/-- A text is seen to end in a line comment if the reader ends in one, or if it has a mark of its own on the last
    line. -/
theorem endsInLineComment_iff_after (code : String) :
    endsInLineComment code = true ↔
      State.code.after code.toList = .lineComment ∨ commentMark ∈ lastLine (Text.bytes (mask code)) := by
  have scanned : scan commentMark .code (Text.bytes code) = encode (State.code.run '\x01' code.toList) := by
    rw [Text.bytes_eq]
    exact State.scan_encode (show '\x01'.toNat < 0x80 by decide) .code code.toList
  rw [endsInLineComment, scanned, List.contains_iff_mem, State.mark_mem_run, State.mark_mem_output, bytes_mask,
    State.mark_mem_run]

/-- A text that the reader leaves in a line comment is seen to end in one. -/
theorem endsInLineComment_of_after {code : String} (comment : State.code.after code.toList = .lineComment) :
    endsInLineComment code = true :=
  (endsInLineComment_iff_after code).mpr (.inl comment)

/-! ### What may follow -/

namespace State

variable {s : State} {cs : List Char}

/-- A line comment takes up all that stands on the line. -/
theorem run_lineComment_flat (flat : '\n' ∉ cs) : State.lineComment.run ' ' cs = List.replicate (byteSize cs) ' ' := by
  induction cs with
  | nil => rfl
  | cons c cs ih =>
    have notFeed : c ≠ '\n' := fun same => flat (by simp [same])
    have next : State.lineComment.step c = .lineComment := by simp [step, notFeed]
    rw [run_cons, next, ih fun member => flat (by simp [member]), write, if_neg notFeed, Text.byteSize_cons,
      List.replicate_append_replicate]

/-- Outside line comments there is text that shows on the line: a character of code, the quotes that end a literal, or
    code behind the end of a block comment. -/
theorem exists_shown (outside : s ≠ .lineComment) :
    ∃ cs, '\n' ∉ cs ∧ s.run ' ' cs ≠ s.flush ++ List.replicate (byteSize cs) ' ' := by
  cases s with
  | lineComment => exact absurd rfl outside
  | code | slash => exact ⟨['x'], by decide, by decide⟩
  | blockComment | star => exact ⟨['*', '/', 'x'], by decide, by decide⟩
  | opened quote => exact ⟨[quote.char], by cases quote <;> decide, by cases quote <;> decide⟩
  | paired quote => exact ⟨['x'], by decide, by cases quote <;> decide⟩
  | literal quote triple =>
    refine ⟨[quote.char, quote.char, quote.char], by cases quote <;> decide, ?_⟩
    cases quote <;> cases triple <;> decide
  | escaped quote triple =>
    refine ⟨['x', quote.char, quote.char, quote.char], by cases quote <;> decide, ?_⟩
    cases quote <;> cases triple <;> decide
  | closing quote two =>
    refine ⟨[quote.char, quote.char, quote.char], by cases quote <;> decide, ?_⟩
    cases quote <;> cases two <;> decide

end State

/-- All that may follow a text on its last line is masked exactly if the reader ends in a line comment. -/
theorem mask_takes_up_iff (code : String) :
    (∀ t : String, '\n' ∉ t.toList → mask (code ++ t) = mask code ++ String.ofList (List.replicate t.utf8ByteSize ' ')) ↔
      State.code.after code.toList = .lineComment := by
  have masked : ∀ t : String, mask (code ++ t) = mask code ++ String.ofList (List.replicate t.utf8ByteSize ' ') ↔
      (State.code.after code.toList).run ' ' t.toList
        = (State.code.after code.toList).flush ++ List.replicate (byteSize t.toList) ' ' := by
    intro t
    have own : State.code.run ' ' code.toList
        = State.code.output ' ' code.toList ++ (State.code.after code.toList).flush := rfl
    rw [mask_eq, mask_eq, String.toList_append, State.run_append_output, own, ← String.ofList_append,
      String.ofList_inj, List.append_assoc, List.append_cancel_left_eq, Text.utf8ByteSize_eq]
  constructor
  · intro takesUp
    by_contra outside
    obtain ⟨cs, flat, shown⟩ := State.exists_shown outside
    have covered := (masked (String.ofList cs)).mp (takesUp _ (by rwa [String.toList_ofList]))
    rw [String.toList_ofList] at covered
    exact shown covered
  · intro comment t flat
    rw [masked, comment, State.run_lineComment_flat flat]
    rfl

/-- A text is seen to end in a line comment exactly if whatever may follow on its last line would be masked, or if the
    last line of its masked form has the mark itself. -/
theorem endsInLineComment_iff (code : String) :
    endsInLineComment code = true ↔
      (∀ t : String, '\n' ∉ t.toList →
          mask (code ++ t) = mask code ++ String.ofList (List.replicate t.utf8ByteSize ' ')) ∨
        commentMark ∈ lastLine (Text.bytes (mask code)) := by
  rw [endsInLineComment_iff_after, mask_takes_up_iff]

end TemplateWeaver.Source
