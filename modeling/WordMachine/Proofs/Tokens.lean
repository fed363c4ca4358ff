/-
Tokens are the words of the stream.

Bytes arrive in segments, and a token may begin in one segment and end in a later one.  Where the
cuts lie does not show: as long as no segment is empty or a failure, the tokens are the words of
all the bytes together.

* `words` cuts bytes at every blank and keeps the pieces that are not empty, so that a word is a
  longest run of bytes that are not blank;
* `Source.Holds`: a stream whose segments, put together, are some bytes;
* `Source.skipBlanks_segments` and `Source.takeToken_segments`: the two loops, on a stream that
  holds bytes, drop and take bytes as if there were no segments;
* `Source.Holds.nextToken`: so a token is the first word, and the other words are left;
* `tokens_are_words`: the calls, one after another, give the words and then nothing.
-/
import WordMachine.Console.Basic

namespace WordMachine

/-! ### Words -/

/-- The words of a text: the longest runs of bytes that are not blank, in order. -/
def words (text : Bytes) : List Bytes := (text.splitOnP isBlank).filter (· ≠ [])

theorem words_cons_of_blank {b : UInt8} (hb : isBlank b = true) (text : Bytes) :
    words (b :: text) = words text := by
  rw [words, words, List.splitOnP_cons_eq_if_modifyHead, if_pos hb,
    List.filter_cons_of_neg (by decide)]

/-- Blanks in front make no difference. -/
theorem words_dropWhile (text : Bytes) : words (text.dropWhile isBlank) = words text := by
  induction text with
  | nil => rfl
  | cons b text ih =>
    by_cases hb : isBlank b = true
    · rw [List.dropWhile_cons_of_pos hb, ih, words_cons_of_blank hb]
    · rw [List.dropWhile_cons_of_neg hb]

theorem words_of_blank {text : Bytes} (h : text.dropWhile isBlank = []) : words text = [] := by
  rw [← words_dropWhile, h]
  rfl

/-- A word ends at a blank or at the end of the text. -/
theorem words_append {word rest : Bytes} (hne : word ≠ [])
    (hword : ∀ b ∈ word, isBlank b = false) (hrest : ∀ b ∈ rest.head?, isBlank b = true) :
    words (word ++ rest) = word :: words rest := by
  cases rest with
  | nil => simp [words, List.splitOnP_eq_singleton hword, hne]
  | cons b rest =>
    have hb : isBlank b = true := hrest b rfl
    rw [words_cons_of_blank hb, words, List.splitOnP_append_cons_of_forall_mem hword b hb]
    simp [words, hne]

theorem blank_of_mem_head?_dropWhile {text : Bytes} :
    ∀ b ∈ (text.dropWhile (!isBlank ·)).head?, isBlank b = true := by
  intro b hb
  have hnot := List.head?_dropWhile_not (!isBlank ·) text
  rw [Option.mem_def.mp hb] at hnot
  simpa using hnot

/-- The first word of a text that starts with one. -/
theorem words_of_cons {b : UInt8} {text : Bytes} (hb : isBlank b = false) :
    words (b :: text) = (b :: text).takeWhile (!isBlank ·) ::
      words ((b :: text).dropWhile (!isBlank ·)) := by
  have hne : (b :: text).takeWhile (!isBlank ·) ≠ [] := by simp [hb]
  have hword : ∀ c ∈ (b :: text).takeWhile (!isBlank ·), isBlank c = false := by
    intro c hc
    simpa using List.all_eq_true.mp (List.all_takeWhile (p := (!isBlank ·)) (l := b :: text)) c hc
  rw [← words_append hne hword blank_of_mem_head?_dropWhile, List.takeWhile_append_dropWhile]

/-! ### Streams -/

namespace Source

/-- A stream holds bytes that are still to be read, cut into segments of which none is empty or a
failure. -/
def Holds (s : Source) (text : Bytes) : Prop :=
  ∃ segments : List Bytes, (∀ b ∈ segments, b ≠ []) ∧ s.coming = segments.map .bytes ∧
    s.pending ++ segments.flatten = text

theorem holds_ofSegments {segments : List Bytes} (h : ∀ b ∈ segments, b ≠ []) :
    Holds (ofSegments (segments.map .bytes)) segments.flatten := ⟨segments, h, rfl, rfl⟩

/-- Skipping blanks goes on through as many segments as there are blanks. -/
theorem skipBlanks_segments {segments : List Bytes} (h : ∀ b ∈ segments, b ≠ [])
    (pending : Bytes) :
    ∃ s, skipBlanks pending (segments.map .bytes) =
        .ok (!((pending ++ segments.flatten).dropWhile isBlank).isEmpty) s ∧
      Holds s ((pending ++ segments.flatten).dropWhile isBlank) := by
  induction segments generalizing pending with
  | nil =>
    rw [List.flatten_nil, List.append_nil, List.map_nil, skipBlanks.eq_def]
    cases pending.dropWhile isBlank with
    | nil => exact ⟨_, rfl, [], h, rfl, rfl⟩
    | cons b rest => exact ⟨_, rfl, [], h, rfl, by simp⟩
  | cons segment segments ih =>
    rw [List.map_cons, skipBlanks.eq_def, List.dropWhile_append]
    cases pending.dropWhile isBlank with
    | cons b rest => exact ⟨_, rfl, segment :: segments, h, rfl, rfl⟩
    | nil =>
      -- Only blanks at hand: the next segment, which is not empty, is looked at.
      cases segment with
      | nil => exact absurd rfl (h [] List.mem_cons_self)
      | cons b rest => exact ih (fun c hc => h c (List.mem_cons_of_mem _ hc)) (b :: rest)

/-- A token goes on through as many segments as its bytes are in. -/
theorem takeToken_segments {segments : List Bytes} (h : ∀ b ∈ segments, b ≠ [])
    (taken pending : Bytes) :
    ∃ s, takeToken taken pending (segments.map .bytes) =
        .ok (taken ++ (pending ++ segments.flatten).takeWhile (!isBlank ·)) s ∧
      Holds s ((pending ++ segments.flatten).dropWhile (!isBlank ·)) := by
  have hsplit := List.takeWhile_append_dropWhile (p := (!isBlank ·)) (l := pending)
  induction segments generalizing taken pending with
  | nil =>
    rw [List.flatten_nil, List.append_nil, List.map_nil, takeToken.eq_def]
    cases pending.dropWhile (!isBlank ·) with
    | nil => exact ⟨_, rfl, [], h, rfl, rfl⟩
    | cons b rest => exact ⟨_, rfl, [], h, rfl, by simp⟩
  | cons segment segments ih =>
    rw [List.map_cons, takeToken.eq_def, List.dropWhile_append, List.takeWhile_append]
    cases hdrop : pending.dropWhile (!isBlank ·) with
    | cons b rest =>
      have hlength : (pending.takeWhile (!isBlank ·)).length ≠ pending.length := by
        intro heq
        rw [hdrop] at hsplit
        have := congrArg List.length hsplit
        rw [List.length_append, List.length_cons] at this
        omega
      rw [if_neg hlength]
      exact ⟨_, rfl, segment :: segments, h, rfl, rfl⟩
    | nil =>
      -- All bytes at hand belong to the token, which may go on in the next segment.
      have hall : pending.takeWhile (!isBlank ·) = pending := by
        rw [hdrop, List.append_nil] at hsplit
        exact hsplit
      rw [hall, if_pos rfl, ← List.append_assoc]
      cases segment with
      | nil => exact absurd rfl (h [] List.mem_cons_self)
      | cons b rest =>
        exact ih (fun c hc => h c (List.mem_cons_of_mem _ hc)) _ (b :: rest)
          List.takeWhile_append_dropWhile

theorem nextToken_of_end {s s' : Source} (h : skipBlanks s.pending s.coming = .ok false s') :
    nextToken s = .ok none s' := by
  simp [nextToken, bind, EStateM.bind, h]

theorem nextToken_of_start {s s₁ s' : Source} {token : Bytes}
    (h : skipBlanks s.pending s.coming = .ok true s₁)
    (h' : takeToken [] s₁.pending s₁.coming = .ok token s') :
    nextToken s = .ok (some token) s' := by
  simp [nextToken, bind, EStateM.bind, h, h']

/-- The next token is the first word, and the other words are left. -/
theorem Holds.nextToken {s : Source} {text : Bytes} (h : s.Holds text) :
    ∃ s' text', nextToken s = .ok (words text).head? s' ∧ s'.Holds text' ∧
      words text' = (words text).tail := by
  obtain ⟨pending, coming⟩ := s
  obtain ⟨segments, hne, rfl, rfl⟩ := h
  obtain ⟨s₁, hskip, hs₁⟩ := skipBlanks_segments hne pending
  cases hdrop : (pending ++ segments.flatten).dropWhile isBlank with
  | nil =>
    rw [hdrop] at hskip hs₁
    have hwords : words (pending ++ segments.flatten) = [] := words_of_blank hdrop
    rw [hwords]
    exact ⟨s₁, [], nextToken_of_end hskip, hs₁, rfl⟩
  | cons b rest =>
    rw [hdrop] at hskip hs₁
    have hb : isBlank b = false := by
      have hnot := List.head?_dropWhile_not isBlank (pending ++ segments.flatten)
      rw [hdrop] at hnot
      exact hnot
    obtain ⟨pending₁, coming₁⟩ := s₁
    obtain ⟨segments₁, hne₁, rfl, htext⟩ := hs₁
    obtain ⟨s₂, htake, hs₂⟩ := takeToken_segments hne₁ [] pending₁
    have htext' : pending₁ ++ segments₁.flatten = b :: rest := htext
    rw [htext'] at htake hs₂
    rw [← words_dropWhile, hdrop, words_of_cons hb]
    exact ⟨s₂, _, nextToken_of_start hskip htake, hs₂, rfl⟩

/-! ### Any stream -/

/-- Where a token is announced, it starts with the byte at hand. -/
theorem pending_of_skipBlanks {pending : Bytes} {coming : List Segment} {s : Source}
    (h : skipBlanks pending coming = .ok true s) :
    ∃ b rest, s.pending = b :: rest ∧ isBlank b = false := by
  fun_induction skipBlanks pending coming with
  | case1 coming pending b rest hdrop =>
    cases h
    have hnot := List.head?_dropWhile_not isBlank pending
    rw [hdrop] at hnot
    exact ⟨b, rest, rfl, hnot⟩
  | case2 | case3 | case4 => cases h
  | case5 _ _ b rest coming ih => exact ih h

/-- What is taken for a token starts with what was taken before and with the bytes at hand that are
not blank, and has no blank. -/
theorem token_of_takeToken {taken pending token : Bytes} {coming : List Segment} {s : Source}
    (h : takeToken taken pending coming = .ok token s) (htaken : ∀ b ∈ taken, isBlank b = false) :
    taken ++ pending.takeWhile (!isBlank ·) <+: token ∧ ∀ b ∈ token, isBlank b = false := by
  have hmore : ∀ {taken pending : Bytes}, (∀ b ∈ taken, isBlank b = false) →
      ∀ b ∈ taken ++ pending.takeWhile (!isBlank ·), isBlank b = false := by
    intro taken pending htaken b hb
    rcases List.mem_append.mp hb with hb | hb
    · exact htaken b hb
    · simpa using List.all_eq_true.mp (List.all_takeWhile (p := (!isBlank ·)) (l := pending)) b hb
  fun_induction takeToken taken pending coming with
  | case1 | case2 | case4 =>
    rw [← (EStateM.Result.ok.inj h).1]
    exact ⟨List.prefix_rfl, hmore htaken⟩
  | case3 => cases h
  | case5 taken pending _ _ b rest coming ih =>
    obtain ⟨hbegin, hall⟩ := ih h (hmore htaken)
    exact ⟨(List.prefix_append _ _).trans hbegin, hall⟩

/-- Whatever the stream does, a token has a byte and no blank. -/
theorem token_of_nextToken {s s' : Source} {token : Bytes} (h : nextToken s = .ok (some token) s') :
    token ≠ [] ∧ ∀ b ∈ token, isBlank b = false := by
  obtain ⟨found, s₁, hskip, h⟩ := Action.bind_eq_ok.mp h
  cases found with
  | false => cases h
  | true =>
    obtain ⟨t, s₂, htake, h⟩ := Action.bind_eq_ok.mp h
    cases h
    obtain ⟨b, rest, hpending, hb⟩ := pending_of_skipBlanks hskip
    obtain ⟨hbegin, hall⟩ := token_of_takeToken htake (by simp)
    refine ⟨?_, hall⟩
    rintro rfl
    rw [hpending] at hbegin
    simp [hb] at hbegin

end Source

/-! ### Call after call -/

namespace Console

/-- Asks for tokens, one after another, and gives what each of the calls gave. -/
def nextTokens : Nat → Action Console (List (Option Bytes))
  | 0 => return []
  | n + 1 => do
    let token ← nextToken
    let tokens ← nextTokens n
    return token :: tokens

theorem nextTokens_of_holds {c : Console} {text : Bytes} (h : c.source.Holds text) (n : Nat) :
    ∃ c', nextTokens n c = .ok ((List.range n).map fun i => (words text)[i]?) c' := by
  induction n generalizing c text with
  | zero => exact ⟨c, rfl⟩
  | succ n ih =>
    obtain ⟨s, rest, hnext, hs, hrest⟩ := h.nextToken
    have hfirst : nextToken c = .ok (words text).head? { c with source := s } := by
      rw [nextToken, onSource_apply, hnext]
      rfl
    obtain ⟨c', hc'⟩ := ih (c := { c with source := s }) hs
    refine ⟨c', ?_⟩
    rw [nextTokens, Action.bind_of_ok hfirst, Action.bind_of_ok hc', List.range_succ_eq_map,
      List.map_cons, List.map_map, hrest, List.head?_eq_getElem?]
    simp [Function.comp_def]

end Console

/-- **Tokens are the words of the stream.**  However a text is cut into segments of which none is
empty, the calls give its words in order and from then on nothing.  On any stream at all, also with
empty segments and failures, a token has a byte and no blank. -/
theorem tokens_are_words :
    (∀ (text : Bytes) (segments : List Bytes) (sink : Sink) (n : Nat),
      segments.flatten = text → (∀ b ∈ segments, b ≠ []) →
        ∃ c, Console.nextTokens n ⟨.ofSegments (segments.map .bytes), sink⟩ =
          .ok ((List.range n).map fun i => (words text)[i]?) c) ∧
    ∀ (c c' : Console) (token : Bytes), c.nextToken = .ok (some token) c' →
      token ≠ [] ∧ ∀ b ∈ token, isBlank b = false := by
  constructor
  · rintro text segments sink n rfl hne
    exact Console.nextTokens_of_holds (Source.holds_ofSegments hne) n
  · intro c c' token h
    rw [Console.nextToken, Console.onSource_apply] at h
    cases hs : Source.nextToken c.source with
    | ok t s =>
      rw [hs] at h
      cases h
      exact Source.token_of_nextToken hs
    | error f s =>
      rw [hs] at h
      cases h

/-- "hello", a blank, a segment that is a tab, and "w". -/
def piecewise : List Bytes := [[104, 101], [108, 108, 111, 32], [9], [119]]

/-- A byte, an end that does not last, and a failure. -/
def faltering : Console := ⟨.ofSegments [.bytes [32, 97], .bytes [], .failure "lost"], {}⟩

theorem piecewise_tokens :
    (∃ c, Console.nextTokens 4 ⟨.ofSegments (piecewise.map .bytes), {}⟩ =
      .ok [some [104, 101, 108, 108, 111], some [119], none, none] c) ∧
    Console.nextToken faltering = .ok (some [97]) ⟨⟨[], [.failure "lost"]⟩, {}⟩ ∧
    ([97] : Bytes) ≠ [] ∧ ∀ b ∈ ([97] : Bytes), isBlank b = false := by
  have hwords : (List.range 4).map (fun i => (words piecewise.flatten)[i]?) =
      [some [104, 101, 108, 108, 111], some [119], none, none] := by decide
  have htoken : Console.nextToken faltering = .ok (some [97]) ⟨⟨[], [.failure "lost"]⟩, {}⟩ := rfl
  refine ⟨?_, htoken, tokens_are_words.2 _ _ _ htoken⟩
  rw [← hwords]
  exact tokens_are_words.1 _ piecewise {} 4 rfl (by decide)

end WordMachine
