import GroundedOps.Spec.Stream

/-!
# The stream reader under any chunking

* `readLines_eq`: the loop over the buffer accepts the complete lines and leaves the rest.
* `decode_append`: the decoder may be fed in parts.
* `readChunks_eq`: **a reading depends on the bytes only**, if no line is too long.
* `accept_stops`: the events are those of the lines before the one that stops it.
* `readAskStream_exact`: **the outcome is that of reading the whole text at once**, and when it is
  which.
-/

namespace GroundedOps

variable {ν : Type} (numbers : Numbers ν)

/-- The limit of a line. -/
def lineLimit : ℕ := 1000000

/-- The lines that are not blank, trimmed. -/
def nonBlank (lines : List JsString) : List JsString := (lines.map trim).filter (· ≠ [])

/-- The events of the lines and the flag behind them, or what the first line throws that is not
accepted. -/
def accept (terminal : Bool) : List JsString → List (Json ν) × Except ReadError Bool
  | [] => ([], .ok terminal)
  | line :: lines =>
    match parseAskLine numbers line with
    | .error error => ([], .error error)
    | .ok none => ([], .error .invalid)
    | .ok (some event) =>
      if terminal then ([], .error .afterTerminal)
      else (event :: (accept (isFinal event) lines).1, (accept (isFinal event) lines).2)

/-- Reading a text at once. -/
def readText (terminal : Bool) (text : JsString) : List (Json ν) × Except ReadError Unit :=
  match accept numbers terminal (nonBlank (Lines.split '\n'.toNat text).1) with
  | (events, .error error) => (events, .error error)
  | (events, .ok terminal) => (events, finishStream (Lines.split '\n'.toNat text).2 terminal)

variable {numbers} {terminal : Bool} {buffer : JsString} {lines more : List JsString}
  {events : List (Json ν)} {error : ReadError}

/-! ## The loop over the lines -/

theorem nonBlank_append : nonBlank (lines ++ more) = nonBlank lines ++ nonBlank more := by
  unfold nonBlank
  rw [List.map_append, List.filter_append]

theorem nonBlank_cons {line : JsString} :
    nonBlank (line :: lines) = if trim line = [] then nonBlank lines else trim line :: nonBlank lines := by
  unfold nonBlank
  rw [List.map_cons]
  by_cases hblank : trim line = []
  · rw [if_pos hblank, List.filter_cons_of_neg (by simpa using hblank)]
  · rw [if_neg hblank, List.filter_cons_of_pos (by simpa using hblank)]

/-- **The loop over the buffer** accepts its complete lines. -/
theorem readLines_eq : readLines numbers buffer terminal =
    ((accept numbers terminal (nonBlank (Lines.split '\n'.toNat buffer).1)).1,
      (accept numbers terminal (nonBlank (Lines.split '\n'.toNat buffer).1)).2.map
        fun terminal => ((Lines.split '\n'.toNat buffer).2, terminal)) := by
  induction hlength : buffer.length using Nat.strong_induction_on generalizing buffer terminal with
  | _ n ih =>
    rw [readLines]
    split
    · rename_i hcut
      rw [Lines.split_of_cut_none hcut]
      rfl
    · rename_i line rest hcut
      have hshorter : rest.length < n := hlength ▸ Lines.cut_length hcut
      rw [Lines.split_of_cut hcut, nonBlank_cons]
      dsimp only
      by_cases hblank : trim line = []
      · rw [if_pos hblank, if_pos hblank]
        exact ih _ hshorter rfl
      · rw [if_neg hblank, if_neg hblank, accept]
        rcases parseAskLine numbers (trim line) with error | _ | event
        · rfl
        · rfl
        · dsimp only
          cases terminal with
          | true => rfl
          | false =>
            rw [if_neg Bool.false_ne_true, if_neg Bool.false_ne_true, ih _ hshorter rfl]

/-- What comes later is accepted after what was there. -/
theorem accept_append : accept numbers terminal (lines ++ more) =
    match accept numbers terminal lines with
    | (events, .error error) => (events, .error error)
    | (events, .ok terminal) =>
      (events ++ (accept numbers terminal more).1, (accept numbers terminal more).2) := by
  induction lines generalizing terminal with
  | nil => rfl
  | cons line lines ih =>
    rw [List.cons_append, accept, accept]
    rcases parseAskLine numbers line with error | _ | event
    · rfl
    · rfl
    · dsimp only
      cases terminal with
      | true => rfl
      | false =>
        rw [if_neg Bool.false_ne_true, if_neg Bool.false_ne_true, ih]
        rcases accept numbers (isFinal event) lines with ⟨events, _ | _⟩
        · rfl
        · rfl

/-! ## The decoder -/

theorem dropBom_append {seen : Bool} {points more : List ℕ} : dropBom seen (points ++ more) =
    ((dropBom (dropBom seen points).1 more).1,
      (dropBom seen points).2 ++ (dropBom (dropBom seen points).1 more).2) := by
  cases points with
  | nil => rfl
  | cons point points =>
    have hseen : ∀ more : List ℕ, dropBom true more = (true, more) := by
      intro more
      cases more <;> rfl
    rw [List.cons_append, dropBom, dropBom, hseen]
    dsimp only
    split
    · rfl
    · rfl

/-- **The decoder may be fed in parts.** -/
theorem decode_append (decoder : TextDecoder) (value more : List UInt8) :
    (decoder.decode (value ++ more) false).2 =
      (decoder.decode value true).2 ++ ((decoder.decode value true).1.decode more false).2 := by
  unfold TextDecoder.decode
  simp only [Utf8.decode_append, Bool.false_eq_true, if_false, if_true, List.append_assoc,
    dropBom_append, Utf16.encode_append]

/-! ## The loop over the chunks -/

theorem readText_error {text : JsString}
    (h : accept numbers terminal (nonBlank (Lines.split '\n'.toNat buffer).1) = (events, .error error)) :
    readText numbers terminal (buffer ++ text) = (events, .error error) := by
  unfold readText
  rw [Lines.split_append, nonBlank_append, accept_append, h]

theorem readText_ok {text : JsString} {flag : Bool}
    (h : accept numbers terminal (nonBlank (Lines.split '\n'.toNat buffer).1) = (events, .ok flag)) :
    readText numbers terminal (buffer ++ text) =
      (events ++ (readText numbers flag ((Lines.split '\n'.toNat buffer).2 ++ text)).1,
        (readText numbers flag ((Lines.split '\n'.toNat buffer).2 ++ text)).2) := by
  unfold readText
  rw [Lines.split_append, nonBlank_append, accept_append, h]
  dsimp only
  rcases accept numbers flag (nonBlank (Lines.split '\n'.toNat
    ((Lines.split '\n'.toNat buffer).2 ++ text)).1) with ⟨more, _ | _⟩
  · rfl
  · rfl

/-- **A reading depends on the bytes only**, if no line of the text is longer than the limit. -/
theorem readChunks_eq {chunks : List (List UInt8)} {reader : StreamReader}
    (hshort : Lines.Short '\n'.toNat lineLimit
      (reader.buffer ++ (reader.decoder.decode chunks.flatten false).2)) :
    readChunks numbers reader chunks = readText numbers reader.terminal
      (reader.buffer ++ (reader.decoder.decode chunks.flatten false).2) := by
  induction chunks generalizing reader with
  | nil =>
    rw [readChunks, List.flatten_nil, readText]
    rcases reader.decoder.decode [] false with ⟨decoder, text⟩
    dsimp only
    rw [readLines_eq]
    rcases accept numbers reader.terminal (nonBlank (Lines.split '\n'.toNat
      (reader.buffer ++ text)).1) with ⟨events, _ | _⟩
    · rfl
    · rfl
  | cons value chunks ih =>
    rw [List.flatten_cons, decode_append, ← List.append_assoc] at hshort ⊢
    obtain ⟨hrest, hshort⟩ := Lines.short_append hshort
    rw [readChunks]
    generalize reader.decoder.decode value true = decoded at hrest hshort ⊢
    obtain ⟨decoder, text⟩ := decoded
    dsimp only at hrest hshort ⊢
    rw [readLines_eq]
    rcases haccept : accept numbers reader.terminal (nonBlank (Lines.split '\n'.toNat
      (reader.buffer ++ text)).1) with ⟨events, error | flag⟩
    · rw [readText_error haccept]
      rfl
    · have hlimit : ¬ 1000000 < (Lines.split '\n'.toNat (reader.buffer ++ text)).2.length :=
        Nat.not_lt.2 hrest
      rw [readText_ok haccept]
      dsimp only [Except.map]
      rw [if_neg hlimit, ih hshort]

/-! ## What stops a reading -/

variable (numbers)

def Accepts (line : JsString) (event : Json ν) : Prop := parseAskLine numbers line = .ok (some event)

/-- The line is not accepted behind the events. -/
inductive Rejects (events : List (Json ν)) (line : JsString) : ReadError → Prop
  | thrown {error : ReadError} (h : parseAskLine numbers line = .error error) : Rejects events line error
  | invalid (h : parseAskLine numbers line = .ok none) : Rejects events line .invalid
  | afterTerminal {event : Json ν} (h : Accepts numbers line event)
      (hfinal : ∃ earlier ∈ events, isFinal earlier = true) : Rejects events line .afterTerminal

/-- What stops a reading that has yielded the events of all lines but `after`, before `rest`. -/
inductive Stops (events : List (Json ν)) : List JsString → JsString → ReadError → Prop
  | line {line rest : JsString} {after : List JsString} {error : ReadError}
      (h : Rejects numbers events line error) : Stops events (line :: after) rest error
  | incomplete {rest : JsString} (h : trim rest ≠ []) : Stops events [] rest .incomplete
  | missingTerminal {rest : JsString} (h : trim rest = []) (hopen : ∀ event ∈ events, isFinal event = false) :
      Stops events [] rest .missingTerminal

/-- The events of a text that is read to its end: one for each line, of which the last is final and
no other, and nothing behind the last line. -/
structure Complete (lines : List JsString) (rest : JsString) (events : List (Json ν)) : Prop where
  accepted : List.Forall₂ (Accepts numbers) lines events
  oneFinal : ∃ before last, events = before ++ [last] ∧ isFinal last = true ∧
    ∀ event ∈ before, isFinal event = false
  blank : trim rest = []

/-- The flag `terminal` behind some events. -/
def flagAfter : Bool → List (Json ν) → Bool
  | terminal, [] => terminal
  | _, event :: events => flagAfter (isFinal event) events

variable {numbers} {rest : JsString}

/-- Only the last event can be final. -/
def OneFinal (events : List (Json ν)) : Prop := ∀ event ∈ events.dropLast, isFinal event = false

theorem flagAfter_false (h : OneFinal events) : flagAfter false events = events.any isFinal := by
  have hany : ∀ {terminal : Bool} {events : List (Json ν)}, OneFinal events → events ≠ [] →
      flagAfter terminal events = events.any isFinal := by
    intro terminal events
    induction events generalizing terminal with
    | nil => exact fun _ hne => absurd rfl hne
    | cons event events ih =>
      intro hone _
      rw [flagAfter, List.any_cons]
      cases events with
      | nil => simp [flagAfter]
      | cons next events =>
        have hevent : isFinal event = false := hone event List.mem_cons_self
        have htail : OneFinal (next :: events) := fun other hmem =>
          hone other (List.mem_cons_of_mem _ hmem)
        rw [hevent, Bool.false_or]
        exact ih htail (List.cons_ne_nil _ _)
  cases events with
  | nil => rfl
  | cons event events => exact hany h (List.cons_ne_nil _ _)

/-- **The events are those of the lines before the first one that is not accepted.** -/
theorem accept_spec {result : Except ReadError Bool}
    (h : accept numbers terminal lines = (events, result)) :
    (terminal = true → events = []) ∧ OneFinal events ∧
      ∃ before after, lines = before ++ after ∧ List.Forall₂ (Accepts numbers) before events ∧
        ((after = [] ∧ result = .ok (flagAfter terminal events)) ∨
          ∃ line rest, after = line :: rest ∧
            ((∃ error, parseAskLine numbers line = .error error ∧ result = .error error) ∨
              (parseAskLine numbers line = .ok none ∧ result = .error .invalid) ∨
              ∃ event, Accepts numbers line event ∧ flagAfter terminal events = true ∧
                result = .error .afterTerminal)) := by
  induction lines generalizing terminal events with
  | nil =>
    cases h
    exact ⟨fun _ => rfl, fun event hmem => absurd hmem List.not_mem_nil, [], [], rfl,
      List.Forall₂.nil, Or.inl ⟨rfl, rfl⟩⟩
  | cons line lines ih =>
    rw [accept] at h
    have hnone : OneFinal ([] : List (Json ν)) := fun event hmem => absurd hmem List.not_mem_nil
    rcases hparse : parseAskLine numbers line with error | _ | event
    · rw [hparse] at h
      cases h
      exact ⟨fun _ => rfl, hnone, [], line :: lines, rfl, List.Forall₂.nil,
        Or.inr ⟨line, lines, rfl, Or.inl ⟨error, hparse, rfl⟩⟩⟩
    · rw [hparse] at h
      cases h
      exact ⟨fun _ => rfl, hnone, [], line :: lines, rfl, List.Forall₂.nil,
        Or.inr ⟨line, lines, rfl, Or.inr (Or.inl ⟨hparse, rfl⟩)⟩⟩
    · rw [hparse] at h
      dsimp only at h
      cases terminal with
      | true =>
        cases h
        exact ⟨fun _ => rfl, hnone, [], line :: lines, rfl, List.Forall₂.nil,
          Or.inr ⟨line, lines, rfl, Or.inr (Or.inr ⟨event, hparse, rfl, rfl⟩)⟩⟩
      | false =>
        rw [if_neg Bool.false_ne_true, Prod.mk.injEq] at h
        obtain ⟨hevents, hresult⟩ := h
        -- the flag of the next round is whether this event was final
        have hrest : accept numbers (isFinal event) lines =
            ((accept numbers (isFinal event) lines).1, result) := Prod.ext rfl hresult
        obtain ⟨hclosed, hone, before, after, rfl, haccepted, hend⟩ := ih hrest
        subst hevents
        refine ⟨fun hterminal => absurd hterminal Bool.false_ne_true, ?_, line :: before, after, rfl,
          List.Forall₂.cons hparse haccepted, hend⟩
        intro other hother
        cases hmore : (accept numbers (isFinal event) (before ++ after)).1 with
        | nil =>
          rw [hmore] at hother
          exact absurd hother List.not_mem_nil
        | cons next more =>
          rw [hmore] at hother hone
          rcases List.mem_cons.1 hother with rfl | hmem
          · -- a final event has nothing behind it
            rw [Bool.eq_false_iff]
            intro hfinal
            rw [hclosed hfinal] at hmore
            cases hmore
          · exact hone other hmem

/-! ## How a text is read -/

/-- **How reading a text ends**: at the first line that is not accepted, or behind the last one. -/
theorem readText_spec {text : JsString} {outcome : Except ReadError Unit}
    (h : readText numbers false text = (events, outcome)) :
    (∀ error, outcome = .error error → ∃ before after,
      nonBlank (Lines.split '\n'.toNat text).1 = before ++ after ∧
        List.Forall₂ (Accepts numbers) before events ∧ OneFinal events ∧
        Stops numbers events after (Lines.split '\n'.toNat text).2 error) ∧
    (outcome = .ok () → Complete numbers (nonBlank (Lines.split '\n'.toNat text).1)
      (Lines.split '\n'.toNat text).2 events) := by
  unfold readText at h
  rcases haccept : accept numbers false (nonBlank (Lines.split '\n'.toNat text).1) with
    ⟨found, error | flag⟩
  · rw [haccept] at h
    cases h
    refine ⟨fun error' heq => ?_, fun heq => by cases heq⟩
    cases heq
    obtain ⟨-, hone, before, after, hlines, haccepted, ⟨-, hok⟩ | ⟨line, rest, rfl, hstop⟩⟩ :=
      accept_spec haccept
    · cases hok
    · refine ⟨before, line :: rest, hlines, haccepted, hone, .line ?_⟩
      rcases hstop with ⟨error', hthrown, heq⟩ | ⟨hinvalid, heq⟩ | ⟨event, haccepts, hflag, heq⟩
      · cases heq
        exact .thrown hthrown
      · cases heq
        exact .invalid hinvalid
      · cases heq
        rw [flagAfter_false hone] at hflag
        exact .afterTerminal haccepts (List.any_eq_true.1 hflag)
  · rw [haccept] at h
    cases h
    obtain ⟨-, hone, before, after, hlines, haccepted, ⟨rfl, hok⟩ | ⟨line, rest, -, hstop⟩⟩ :=
      accept_spec haccept
    · cases hok
      rw [List.append_nil] at hlines
      subst hlines
      unfold finishStream
      by_cases hblank : trim (Lines.split '\n'.toNat text).2 = []
      · rw [if_neg (not_not.2 hblank), flagAfter_false hone]
        cases hflag : events.any isFinal with
        | false =>
          refine ⟨fun error heq => ?_, fun heq => by cases heq⟩
          cases heq
          have hopen : ∀ event ∈ events, isFinal event = false := by simpa using hflag
          exact ⟨_, [], (List.append_nil _).symm, haccepted, hone, .missingTerminal hblank hopen⟩
        | true =>
          refine ⟨fun error heq => (by cases heq), fun _ => ⟨haccepted, ?_, hblank⟩⟩
          obtain ⟨event, hmem, hfinal⟩ := List.any_eq_true.1 hflag
          have hne : events ≠ [] := List.ne_nil_of_mem hmem
          refine ⟨events.dropLast, events.getLast hne, (List.dropLast_append_getLast hne).symm, ?_, hone⟩
          -- the final event is not among the others
          rw [← List.dropLast_append_getLast hne, List.mem_append, List.mem_singleton] at hmem
          rcases hmem with hmem | rfl
          · rw [hone event hmem] at hfinal
            cases hfinal
          · exact hfinal
      · rw [if_pos hblank]
        refine ⟨fun error heq => ?_, fun heq => by cases heq⟩
        cases heq
        exact ⟨_, [], (List.append_nil _).symm, haccepted, hone, .incomplete hblank⟩
    · rcases hstop with ⟨_, -, heq⟩ | ⟨-, heq⟩ | ⟨_, -, -, heq⟩ <;> cases heq

theorem accept_complete {before : List (Json ν)} {last : Json ν}
    (h : List.Forall₂ (Accepts numbers) lines (before ++ [last]))
    (hopen : ∀ event ∈ before, isFinal event = false) :
    accept numbers false lines = (before ++ [last], .ok (isFinal last)) := by
  induction before generalizing lines with
  | nil =>
    obtain ⟨line, lines, haccepts, hnil, rfl⟩ := List.forall₂_cons_right_iff.1 h
    obtain rfl := List.forall₂_nil_right_iff.1 hnil
    unfold Accepts at haccepts
    rw [accept, haccepts]
    rfl
  | cons event before ih =>
    obtain ⟨line, lines, haccepts, hrest, rfl⟩ := List.forall₂_cons_right_iff.1 h
    have hevent : isFinal event = false := hopen event List.mem_cons_self
    have htail := ih hrest fun other hmem => hopen other (List.mem_cons_of_mem _ hmem)
    unfold Accepts at haccepts
    rw [accept, haccepts]
    dsimp only
    rw [if_neg Bool.false_ne_true, hevent, htail]
    rfl

/-- A text that can be read to its end is. -/
theorem readText_complete {text : JsString}
    (h : Complete numbers (nonBlank (Lines.split '\n'.toNat text).1) (Lines.split '\n'.toNat text).2 events) :
    readText numbers false text = (events, .ok ()) := by
  obtain ⟨haccepted, ⟨before, last, rfl, hlast, hopen⟩, hblank⟩ := h
  unfold readText finishStream
  rw [accept_complete haccepted hopen, hlast]
  dsimp only
  rw [if_neg (not_not.2 hblank)]
  rfl

/-! ## The text that the decoder returns -/

/-- The code units of a text. -/
def textUnits (text : String) : JsString := Utf16.encode (text.toList.map Char.toNat)

theorem trim_bom (s : JsString) : trim (0xfeff :: s) = trim s := by
  unfold trim
  rw [List.dropWhile_cons_of_pos (by decide)]

theorem nonBlank_congr {lines' : List JsString} (h : lines.map trim = lines'.map trim) :
    nonBlank lines = nonBlank lines' := by
  unfold nonBlank
  rw [h]

/-- A byte order mark in front of a text is trimmed away. -/
theorem readText_bom (terminal : Bool) (text : JsString) :
    readText numbers terminal (0xfeff :: text) = readText numbers terminal text := by
  have hsplit : Lines.split '\n'.toNat (0xfeff :: text) = Lines.push 0xfeff (Lines.split '\n'.toNat text) :=
    if_neg (by decide)
  unfold readText finishStream
  rw [hsplit]
  rcases Lines.split '\n'.toNat text with ⟨_ | ⟨line, lines⟩, rest⟩
  · simp only [Lines.push, trim_bom]
  · have hlines : nonBlank ((0xfeff :: line) :: lines) = nonBlank (line :: lines) :=
      nonBlank_congr (by rw [List.map_cons, List.map_cons, trim_bom])
    simp only [Lines.push, hlines]
    rfl

theorem short_bom {text : JsString} {n : ℕ} (h : Lines.Short '\n'.toNat n (0xfeff :: text)) :
    Lines.Short '\n'.toNat n text := by
  have hsplit : Lines.split '\n'.toNat (0xfeff :: text) = Lines.push 0xfeff (Lines.split '\n'.toNat text) :=
    if_neg (by decide)
  unfold Lines.Short at h ⊢
  rw [hsplit] at h
  generalize Lines.split '\n'.toNat text = parts at h ⊢
  obtain ⟨_ | ⟨line, lines⟩, rest⟩ := parts
  · refine ⟨fun line hline => absurd hline List.not_mem_nil, ?_⟩
    exact (Nat.le_succ _).trans h.2
  · refine ⟨fun other hother => ?_, h.2⟩
    rcases List.mem_cons.1 hother with rfl | hmem
    · exact (Nat.le_succ _).trans (h.1 _ List.mem_cons_self)
    · exact h.1 other (List.mem_cons_of_mem _ hmem)

/-- **The bytes of a text are decoded to the text**, up to a byte order mark. -/
theorem decode_text (text : String) :
    (({} : TextDecoder).decode (Utf8.encode text.toList) false).2 = textUnits text ∨
      textUnits text = 0xfeff :: (({} : TextDecoder).decode (Utf8.encode text.toList) false).2 := by
  have hflush : Utf8.flush {} = [] := rfl
  unfold TextDecoder.decode textUnits
  simp only [Utf8.decode_encode, hflush, Bool.false_eq_true, if_false, List.append_nil]
  cases text.toList.map Char.toNat with
  | nil => exact Or.inl rfl
  | cons point points =>
    by_cases hbom : point = 0xfeff
    · subst hbom
      exact Or.inr rfl
    · refine Or.inl ?_
      have hkept : (!false && decide (point = 0xfeff)) = false := by simpa using hbom
      rw [dropBom, hkept]
      rfl

/-- The lines of a text that are not blank, trimmed, and what follows the last newline. -/
def textLines (text : String) : List JsString := nonBlank (Lines.split '\n'.toNat (textUnits text)).1

def textRest (text : String) : JsString := (Lines.split '\n'.toNat (textUnits text)).2

/-- **However its bytes are divided**, a text with short lines is read as at once. -/
theorem readAskStream_eq {text : String} {chunks : List (List UInt8)}
    (hbytes : chunks.flatten = Utf8.encode text.toList)
    (hshort : Lines.Short '\n'.toNat lineLimit (textUnits text)) :
    readAskStream numbers chunks = readText numbers false (textUnits text) := by
  unfold readAskStream
  rcases decode_text text with hsame | hbom
  · rw [readChunks_eq, hbytes, hsame]
    · rfl
    · rw [hbytes, hsame]
      exact hshort
  · rw [readChunks_eq, hbytes, hbom, readText_bom]
    · rfl
    · rw [hbom] at hshort
      rw [hbytes]
      exact short_bom hshort

/-- **The stream reader is exact under any chunking.** For every text with lines of at most 1000000
code units and every division of its UTF-8 bytes into chunks, the events and the outcome are those
of the whole text at once. The reading ends without an error if and only if the lines that are not
blank are accepted, exactly one event is final and it is the last, and what follows the last newline
is blank; those are the events then. Where it ends with an error, the events are those of the lines
before the one that stops it, or of all lines. -/
theorem readAskStream_exact (numbers : Numbers ν) (text : String) (chunks : List (List UInt8))
    (hbytes : chunks.flatten = Utf8.encode text.toList)
    (hshort : Lines.Short '\n'.toNat lineLimit (textUnits text)) :
    readAskStream numbers chunks = readAskStream numbers [Utf8.encode text.toList] ∧
      ((readAskStream numbers chunks).2 = .ok () ↔
        ∃ events, Complete numbers (textLines text) (textRest text) events) ∧
      (∀ events, Complete numbers (textLines text) (textRest text) events →
        (readAskStream numbers chunks).1 = events) ∧
      ∀ error, (readAskStream numbers chunks).2 = .error error →
        ∃ before after, textLines text = before ++ after ∧
          List.Forall₂ (Accepts numbers) before (readAskStream numbers chunks).1 ∧
          OneFinal (readAskStream numbers chunks).1 ∧
          Stops numbers (readAskStream numbers chunks).1 after (textRest text) error := by
  have hone : [Utf8.encode text.toList].flatten = Utf8.encode text.toList := List.flatten_singleton
  rw [readAskStream_eq hbytes hshort, readAskStream_eq hone hshort]
  have hread : readText numbers false (textUnits text) =
      ((readText numbers false (textUnits text)).1, (readText numbers false (textUnits text)).2) := rfl
  obtain ⟨hstops, hcomplete⟩ := readText_spec hread
  refine ⟨rfl, ⟨fun hok => ⟨_, hcomplete hok⟩, ?_⟩, ?_, hstops⟩
  · rintro ⟨events, hevents⟩
    rw [readText_complete hevents]
  · intro events hevents
    rw [readText_complete hevents]

/-- A status line and a final line with an accent in its answer. -/
def accentedText : String :=
  "\x7b\"type\":\"status\",\"status\":\"retrieving\"\x7d\n" ++
  "\x7b\"type\":\"final\",\"status\":\"degraded\",\"answer\":\"é\",\"claims\":[],\"sources\":[]\x7d\n"

/-- The bytes of the text in two chunks, with the accented letter divided between them. -/
def accentedChunks : List (List UInt8) :=
  [(Utf8.encode accentedText.toList).take 87, (Utf8.encode accentedText.toList).drop 87]

/-- The two lines are read as two events, of which the second is final. -/
theorem readAskStream_exact_divided :
    accentedChunks.map List.head? = [some 0x7b, some 0xa9] ∧
      Prod.map (List.map isFinal) id (readAskStream (⟨id, id⟩ : Numbers JsString) accentedChunks) =
        ([false, true], .ok ()) := by
  have hbytes : accentedChunks.flatten = Utf8.encode accentedText.toList := by simp [accentedChunks]
  have hwhole : Prod.map (List.map isFinal) id (readAskStream (⟨id, id⟩ : Numbers JsString)
      [Utf8.encode accentedText.toList]) = ([false, true], .ok ()) := by decide +kernel
  refine ⟨by decide +kernel, ?_⟩
  rw [(readAskStream_exact ⟨id, id⟩ accentedText accentedChunks hbytes
    ⟨by decide +kernel, by decide +kernel⟩).1]
  exact hwhole

end GroundedOps
