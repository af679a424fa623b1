import Vintage.Lexeme.Reader
import Vintage.Proofs.Encoding

/-!
# Runs of the reader

A reader goes through a text step by step, and interpolations are read by readers inside it. What
one step keeps is kept by the whole run, however deep the interpolations are.

Results:
* `Reader.step_lexeme`, `Reader.step_fault`: what one step does.
* `Reader.Kept.readAll`: what the steps keep holds of all that is read.
-/

namespace Vintage.Lexeme.Reader

/-! ## One step -/

/-- A lexeme is what is cut off at the reader's offset; there is text left to cut it from. -/
theorem step_lexeme {r : Reader} {x : Lexeme} {next : Reader} (h : r.step = .lexeme x next) :
    ∃ n, r.cut = .lexeme x.kind n next.mode ∧ x.start = r.offset ∧ x.stop = next.offset ∧
      next.rest = (r.advance n).rest ∧ next.offset = (r.advance n).offset ∧ r.rest ≠ [] := by
  unfold step at h
  split at h
  · cases h
  · rename_i hrest
    simp only at h
    split at h <;> cases h
    rename_i n _ hcut
    exact ⟨n, hcut, rfl, rfl, rfl, rfl, fun hnil => hrest (List.isEmpty_iff.2 hnil)⟩

theorem step_fault {r next : Reader} (h : r.step = .fault next) :
    ∃ n, next.rest = (r.advance n).rest ∧ next.offset = (r.advance n).offset := by
  unfold step at h
  split at h
  · cases h
  · simp only at h
    split at h <;> cases h
    rename_i n _
    exact ⟨n, rfl, rfl⟩

/-- The reader stands in the text `cs` at its offset: what is before it has as many bytes. -/
def At (cs : List Char) (r : Reader) : Prop :=
  ∃ before, cs = before ++ r.rest ∧ r.offset = Text.Utf8.size before

/-- A reader starts before the whole text. -/
theorem at_start (cs : List Char) : At cs { rest := cs } := ⟨[], rfl, rfl⟩

theorem At.of_advance {cs : List Char} {r next : Reader} (h : r.At cs) {n : Nat}
    (hrest : next.rest = (r.advance n).rest) (hoffset : next.offset = (r.advance n).offset) :
    next.At cs := by
  obtain ⟨before, hcs, hbefore⟩ := h
  refine ⟨before ++ r.rest.take n, ?_, ?_⟩
  · rw [hrest, hcs, List.append_assoc]
    exact congrArg (before ++ ·) (List.take_append_drop n r.rest).symm
  · rw [hoffset, Text.Utf8.size_append, ← hbefore]
    rfl

theorem At.step_lexeme {cs : List Char} {r : Reader} (h : r.At cs) {x : Lexeme} {next : Reader}
    (hstep : r.step = .lexeme x next) : next.At cs := by
  obtain ⟨n, -, -, -, hrest, hoffset, -⟩ := Reader.step_lexeme hstep
  exact h.of_advance hrest hoffset

theorem At.step_fault {cs : List Char} {r : Reader} (h : r.At cs) {next : Reader}
    (hstep : r.step = .fault next) : next.At cs := by
  obtain ⟨n, hrest, hoffset⟩ := Reader.step_fault hstep
  exact h.of_advance hrest hoffset

/-! ## Whole runs -/

/-- The steps of readers keep `I`, a property of a reader's place in the text and of the lexemes
read so far, the last one first. -/
structure Kept (I : Reader → List Lexeme → Prop) : Prop where
  /-- how the text is read has no say -/
  place : ∀ {r r' : Reader} {found : List Lexeme}, r'.rest = r.rest → r'.offset = r.offset →
    I r found → I r' found
  lexeme : ∀ {r next : Reader} {x : Lexeme} {found : List Lexeme}, I r found →
    r.step = .lexeme x next → I next (x :: found)
  fault : ∀ {r next : Reader} {found : List Lexeme}, I r found → r.step = .fault next →
    I next found

/-- The interpolation that starts at the reader keeps `I`, whatever was read before. -/
def Burst.Keeps (I : Reader → List Lexeme → Prop) (r : Reader) (b : Burst) : Prop :=
  ∀ base, I r base → I b.reader (b.reversed ++ base)

namespace Kept

variable {I : Reader → List Lexeme → Prop}

/-- The run of an interpolation keeps what the steps keep, if interpolations inside it do. -/
theorem collect (h : Kept I) {inner : Reader → Embedding → Burst}
    (hinner : ∀ r embedding, (inner r embedding).Keeps I r) (goal : Embedding) (fuel braces : Nat)
    {r : Reader} {found base : List Lexeme} (hr : I r (found ++ base)) :
    I (collect inner goal fuel braces r found).reader
      ((collect inner goal fuel braces r found).reversed ++ base) := by
  induction fuel generalizing braces r found with
  | zero => exact hr
  | succ fuel ih =>
    rw [Reader.collect]
    -- an interpolation inside this one, or one step, after which only the surroundings are set
    split
    · rename_i embedding _
      have hburst := hinner r embedding (found ++ base) hr
      rw [← List.append_assoc] at hburst
      simp only
      split
      · exact hburst
      · exact ih braces hburst
    · split
      · exact hr
      · rename_i next hstep
        exact h.fault hr hstep
      · rename_i x next hstep
        have hnext : I next ((x :: found) ++ base) := h.lexeme hr hstep
        split
        · split
          · exact hnext
          · exact ih braces (h.place (r := next) rfl rfl hnext)
        · split
          · exact hnext
          · exact ih _ (h.place (r := next) rfl rfl hnext)

/-- However deep an interpolation is, it keeps what the steps keep. -/
theorem embed (h : Kept I) (depth : Nat) (r : Reader) (embedding : Embedding) :
    (embed depth r embedding).Keeps I r := by
  induction depth generalizing r embedding with
  | zero => exact fun base hr => hr
  | succ depth ih =>
    intro base hr
    have hstart : I { r with
        mode := .script, place := { embedded := true, braced := embedding == .braced } }
        ([] ++ base) := h.place (r := r) rfl rfl hr
    have hburst := h.collect ih embedding r.turns 0 hstart
    rw [Reader.embed]
    exact h.place (r := (Reader.collect _ _ _ _ _ _).reader) rfl rfl hburst

/-- What the steps keep holds when all is read. -/
theorem readAll (h : Kept I) (fuel : Nat) {r : Reader} {found : List Lexeme} (hr : I r found) :
    ∃ last, I last (readAll fuel r found).reverse := by
  induction fuel generalizing r found with
  | zero => exact ⟨r, by rwa [Reader.readAll, List.reverse_reverse]⟩
  | succ fuel ih =>
    rw [Reader.readAll]
    split
    · rename_i embedding _
      exact ih (h.embed maxDepth r embedding found hr)
    · split
      · exact ⟨r, by rwa [List.reverse_reverse]⟩
      · rename_i next hstep
        exact ih (h.fault hr hstep)
      · rename_i x next hstep
        exact ih (h.lexeme hr hstep)

end Kept

end Vintage.Lexeme.Reader
