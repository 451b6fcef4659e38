import GroundedOps.Lib.Separator
import GroundedOps.Proof.Restore
import GroundedOps.Spec.ObjectStore

/-!
# The document store is atomic

A `put` is a conditional write and a read behind it, of a bucket with texts for keys; the pipeline
is modelled with one operation on objects that are named by their references. The two agree, since
an object is never replaced.

* `key_injective`: no two references have one key.
* `objects_kept`: what an artifact is, it stays.
* `step_shelved`: what one step of any call keeps.
* `artifacts_linearizable`: **every interleaving of calls is one of atomic puts and gets**, each at
  a moment between its start and its end.
-/

namespace GroundedOps.Ingestion

open Hoare

namespace ObjectStore

/-! ## Keys -/

theorem kind_separator (kind : ArtifactKind) : '/' ∉ kind.value.toList := by
  cases kind with
  | raw => decide
  | normalized => decide

theorem value_injective {kind kind' : ArtifactKind} (h : kind.value = kind'.value) : kind = kind' := by
  cases kind <;> cases kind' <;> first | rfl | exact absurd h (by decide)

theorem key_eq (r : ArtifactRef) : r.key = r.tenantId ++ "/" ++ (r.kind.value ++ "/" ++ r.digest) := by
  unfold ArtifactRef.key
  simp only [String.append_assoc]

/-- **No two references have one key.** -/
theorem key_injective {r r' : ArtifactRef} (hr : r.check = true) (hr' : r'.check = true)
    (h : r.key = r'.key) : r = r' := by
  have hsep : ("/" : String).toList = ['/'] := by decide
  unfold ArtifactRef.check at hr hr'
  rw [Bool.and_eq_true] at hr hr'
  rw [key_eq, key_eq] at h
  obtain ⟨htenant, hrest⟩ := Separator.string_append_inj hsep (validIdentifier_separator hr.1)
    (validIdentifier_separator hr'.1) h
  obtain ⟨hkind, hdigest⟩ := Separator.string_append_inj hsep (kind_separator r.kind)
    (kind_separator r'.kind) hrest
  cases r
  cases r'
  simp only at htenant hkind hdigest
  rw [htenant, value_injective hkind, hdigest]

/-! ## Objects -/

variable {P : Platform} {objects : ArtifactRef → Option ByteArray} {r r' : ArtifactRef}
  {content stored : ByteArray} {w : World} {log more : List (ArtifactRef × ByteArray)} {i j : ℕ}

/-- The world after the puts of the log, from a world with these objects. -/
def shelved (objects : ArtifactRef → Option ByteArray) (log : List (ArtifactRef × ByteArray)) :
    World :=
  log.foldl (fun w put => DocumentStore.putObject put.1 put.2 w) { objects }

theorem shelved_append : shelved objects (log ++ [(r, content)]) =
    DocumentStore.putObject r content (shelved objects log) := by
  simp [shelved]

theorem putObject_objects : (DocumentStore.putObject r content w).objects r' =
    if r' = r then some ((w.objects r).getD content) else w.objects r' := by
  unfold DocumentStore.putObject
  cases h : w.objects r with
  | none =>
    rw [if_neg (by simp)]
    by_cases hr : r' = r
    · rw [if_pos hr, hr]
      exact Function.update_self ..
    · rw [if_neg hr]
      exact Function.update_of_ne hr ..
  | some stored =>
    rw [if_pos (by simp)]
    by_cases hr : r' = r
    · rw [if_pos hr, hr, h]
      rfl
    · rw [if_neg hr]

theorem putObject_kept (h : w.objects r' = some stored) :
    (DocumentStore.putObject r content w).objects r' = some stored := by
  rw [putObject_objects]
  split
  · rename_i hr
    rw [← hr, h]
    rfl
  · exact h

/-- **What an artifact is, it stays.** -/
theorem objects_kept (h : (shelved objects log).objects r = some stored) :
    (shelved objects (log ++ more)).objects r = some stored := by
  induction more using List.reverseRecOn with
  | nil => rwa [List.append_nil]
  | append_singleton more put ih =>
    obtain ⟨r', content⟩ := put
    rw [← List.append_assoc, shelved_append]
    exact putObject_kept ih

theorem objects_take (hij : i ≤ j) (h : (shelved objects (log.take i)).objects r = some stored) :
    (shelved objects (log.take j)).objects r = some stored := by
  have hsplit : log.take j = log.take i ++ (log.take j).drop i := by
    have htake := (List.take_append_drop i (log.take j)).symm
    rwa [List.take_take, min_eq_left hij] at htake
  rw [hsplit]
  exact objects_kept h

/-- Two moments that both have an artifact have the same. -/
theorem objects_unique {stored' : ByteArray}
    (h : (shelved objects (log.take i)).objects r = some stored)
    (h' : (shelved objects (log.take j)).objects r = some stored') : stored = stored' := by
  rcases le_total i j with hij | hji
  · exact Option.some.inj ((objects_take hij h).symm.trans h')
  · exact Option.some.inj (h.symm.trans (objects_take hji h'))

/-- What the log has an artifact of was there already, or is from the log. -/
theorem objects_cases (h : (shelved objects log).objects r = some stored) :
    objects r = some stored ∨ (r, stored) ∈ log := by
  induction log using List.reverseRecOn with
  | nil => exact Or.inl h
  | append_singleton log put ih =>
    obtain ⟨r', content⟩ := put
    rw [shelved_append, putObject_objects] at h
    by_cases hr : r = r'
    · rw [if_pos hr] at h
      cases hold : (shelved objects log).objects r' with
      | some old =>
        rw [hold] at h
        have hsame : old = stored := Option.some.inj h
        have hbefore := ih (by rw [hr, hold, hsame])
        exact hbefore.imp_right (List.mem_append_left _)
      | none =>
        rw [hold] at h
        have hsame : content = stored := Option.some.inj h
        rw [hr, hsame]
        exact Or.inr (List.mem_append_right _ List.mem_cons_self)
    · rw [if_neg hr] at h
      exact (ih h).imp_right (List.mem_append_left _)

/-! ## Atomic calls -/

/-- What `get` accepts. -/
def Intact (P : Platform) (r : ArtifactRef) (content : ByteArray) : Prop :=
  content.size ≤ DocumentStore.maxBytes ∧ P.sha256 content = r.digest

theorem Intact.passes (h : Intact P r content) :
    ¬ (DocumentStore.maxBytes < content.size ∨ P.sha256 content ≠ r.digest) := by
  rintro (hsize | hdigest)
  · exact absurd h.1 (not_le.2 hsize)
  · exact hdigest h.2

/-- A `get` of what is there and intact returns it. -/
theorem exec_get (hstored : w.objects r = some stored) (hintact : Intact P r stored) :
    exec (DocumentStore.get P r) w = (.ok stored, w) := by
  refine exec_of_wp ?_
  simp only [DocumentStore.get, wp_bind, wp_orRaise]
  refine ⟨fun content hcontent => ?_, fun hnone => ?_⟩
  · have hsame : content = stored := Option.some.inj (hcontent.symm.trans hstored)
    rw [hsame, if_neg hintact.passes]
    simp
  · have hnone' : w.objects r = none := hnone
    rw [hstored] at hnone'
    cases hnone'

/-- A `put` that finds what it wrote, or what was there before, intact returns its reference. -/
theorem exec_put {tenantId : String} {kind : ArtifactKind} (operation : Operation)
    (hsize : content.size ≤ DocumentStore.maxBytes) (hr : r = ⟨tenantId, kind, P.sha256 content⟩)
    (hstored : (DocumentStore.putObject r content w).objects r = some stored)
    (hintact : Intact P r stored) :
    exec (DocumentStore.put P {} operation tenantId kind content) w =
      (.ok r, DocumentStore.putObject r content w) := by
  refine exec_of_wp ?_
  subst hr
  simp only [DocumentStore.put]
  rw [if_neg (not_lt.2 hsize)]
  simp only [wp_bind, wp_request, wp_pure]
  refine ⟨fun _ => ?_, fun fault hfault => by cases hfault⟩
  have hget := exec_get hstored hintact
  refine wp_mono wp_self ?_ ?_
  · intro content' w' hrun
    rw [hget] at hrun
    cases hrun
    exact ⟨trivial, rfl⟩
  · intro raised w' hrun
    rw [hget] at hrun
    cases hrun

theorem read_of_small (h : content.size ≤ DocumentStore.maxBytes) : read content = content := by
  unfold read
  have hmax : DocumentStore.maxBytes + 1 = max (DocumentStore.maxBytes + 1) content.size := by
    omega
  rw [hmax]
  exact ByteArray.extract_zero_max_size

/-- What is read of an object passes the checks only if the object does, and is all of it. -/
theorem read_intact (h : Intact P r (read content)) : read content = content ∧ Intact P r content := by
  have hsize : (read content).size = min (DocumentStore.maxBytes + 1) content.size := by
    unfold read
    rw [ByteArray.size_extract, Nat.sub_zero]
  have hsmall : content.size ≤ DocumentStore.maxBytes := by
    have hbound := h.1
    omega
  have hall : read content = content := read_of_small hsmall
  exact ⟨hall, hall ▸ h⟩

/-! ## Steps -/

/-- The content of a put, and the reference that it makes. -/
structure Puts (P : Platform) (request : StoreRequest) (r : ArtifactRef) (content : ByteArray) :
    Prop where
  request : request = .put r.tenantId r.kind content
  reference : r = ⟨r.tenantId, r.kind, P.sha256 content⟩
  size : content.size ≤ DocumentStore.maxBytes
  check : r.check = true

/-- The put of the call has reached the bucket since the call was received. -/
def Sent (P : Platform) (log : List (ArtifactRef × ByteArray)) (call : StoreCall)
    (r : ArtifactRef) : Prop :=
  ∃ content i, Puts P call.request r content ∧ call.received ≤ i ∧ log[i]? = some (r, content)

/-- The call gets the artifact, for itself or at the end of a put. -/
def Gets (P : Platform) (log : List (ArtifactRef × ByteArray)) (call : StoreCall) (r : ArtifactRef)
    (putting : Bool) : Prop :=
  if putting then Sent P log call r else ∃ valid, call.request = .get r.tenantId r valid

/-- What has been read was there at some moment since the call was received. -/
def WasRead (objects : ArtifactRef → Option ByteArray) (log : List (ArtifactRef × ByteArray))
    (call : StoreCall) (r : ArtifactRef) (content : ByteArray) : Prop :=
  ∃ i stored, call.received ≤ i ∧ i ≤ log.length ∧
    (shelved objects (log.take i)).objects r = some stored ∧ content = read stored

/-- A reply is what the atomic operation returns at some moment since the call was received; a put is
then the entry of the log at that moment. -/
def Linearizes (P : Platform) (objects : ArtifactRef → Option ByteArray)
    (log : List (ArtifactRef × ByteArray)) (call : StoreCall) : StoreReply → Prop
  | .reference r => ∃ content i, call.request = .put r.tenantId r.kind content ∧ call.received ≤ i ∧
      log[i]? = some (r, content) ∧
      exec (DocumentStore.put P {} .putRaw r.tenantId r.kind content) (shelved objects (log.take i)) =
        (.ok r, shelved objects (log.take (i + 1)))
  | .content content => ∃ r valid i, call.request = .get r.tenantId r valid ∧ call.received ≤ i ∧
      i ≤ log.length ∧ exec (DocumentStore.get P r) (shelved objects (log.take i)) =
        (.ok content, shelved objects (log.take i))
  | .raised _ => True

/-- What is known of a call at its point. -/
def Placed (P : Platform) (objects : ArtifactRef → Option ByteArray)
    (log : List (ArtifactRef × ByteArray)) (call : StoreCall) : Prop :=
  match call.point with
  | .enterPut r content | .putObject r content => Puts P call.request r content
  | .recordPut r failed => failed = false → Sent P log call r
  | .enterGet r putting | .getObject r putting => Gets P log call r putting
  | .recordGet r putting read =>
    ∀ content, read = some content → Gets P log call r putting ∧ WasRead objects log call r content
  | .ended reply => Linearizes P objects log call reply

/-- **The bucket is the objects after the puts that reached it**, and every call is where it should
be. -/
structure Shelved (P : Platform) (objects : ArtifactRef → Option ByteArray) {I C T : Type}
    (s : ObjectStore I C T) : Prop where
  bucket : ∀ r, r.check = true → s.bucket r.key = (shelved objects s.log).objects r
  log : ∀ put ∈ s.log, put.1.check = true ∧ Intact P put.1 put.2
  received : ∀ c call, s.calls c = some call → call.received ≤ s.log.length
  calls : ∀ c call, s.calls c = some call → Placed P objects s.log call

section Placed

variable {call : StoreCall} {putting : Bool}

theorem Sent.grow (h : Sent P log call r) : Sent P (log ++ more) call r := by
  obtain ⟨content, i, hputs, hi, hlog⟩ := h
  refine ⟨content, i, hputs, hi, ?_⟩
  have hlt : i < log.length := (List.getElem?_eq_some_iff.1 hlog).1
  rw [List.getElem?_append_left hlt]
  exact hlog

theorem Gets.grow (h : Gets P log call r putting) : Gets P (log ++ more) call r putting := by
  unfold Gets at *
  cases putting with
  | true => exact Sent.grow h
  | false => exact h

theorem take_more (hi : i ≤ log.length) : (log ++ more).take i = log.take i :=
  List.take_append_of_le_length hi

theorem WasRead.grow (h : WasRead objects log call r content) :
    WasRead objects (log ++ more) call r content := by
  obtain ⟨i, stored, hreceived, hi, hstored, hread⟩ := h
  refine ⟨i, stored, hreceived, ?_, ?_, hread⟩
  · rw [List.length_append]
    omega
  · rwa [take_more hi]

theorem Linearizes.grow {reply : StoreReply} (h : Linearizes P objects log call reply) :
    Linearizes P objects (log ++ more) call reply := by
  cases reply with
  | reference r =>
    obtain ⟨content, i, hrequest, hreceived, hlog, hexec⟩ := h
    have hlt : i < log.length := (List.getElem?_eq_some_iff.1 hlog).1
    refine ⟨content, i, hrequest, hreceived, ?_, ?_⟩
    · rw [List.getElem?_append_left hlt]
      exact hlog
    · rw [take_more (by omega), take_more (by omega)]
      exact hexec
  | content content =>
    obtain ⟨r, valid, i, hrequest, hreceived, hi, hexec⟩ := h
    refine ⟨r, valid, i, hrequest, hreceived, ?_, ?_⟩
    · rw [List.length_append]
      omega
    · rw [take_more hi]
      exact hexec
  | raised error => trivial

/-- What is known of a call stays known when another put reaches the bucket. -/
theorem Placed.grow (h : Placed P objects log call) : Placed P objects (log ++ more) call := by
  unfold Placed at *
  cases hpoint : call.point with
  | enterPut r content => rw [hpoint] at h; exact h
  | putObject r content => rw [hpoint] at h; exact h
  | recordPut r failed => rw [hpoint] at h; exact fun hfailed => Sent.grow (h hfailed)
  | enterGet r putting => rw [hpoint] at h; exact Gets.grow h
  | getObject r putting => rw [hpoint] at h; exact Gets.grow h
  | recordGet r putting content =>
    rw [hpoint] at h
    intro content' hcontent
    obtain ⟨hgets, hwas⟩ := h content' hcontent
    exact ⟨Gets.grow hgets, WasRead.grow hwas⟩
  | ended reply => rw [hpoint] at h; exact Linearizes.grow h

end Placed

/-- **What passes the checks of `get`** is linearized where it was read, or where it was put. -/
theorem linearizes_checked {call : StoreCall} {putting : Bool} (hgets : Gets P log call r putting)
    (hread : WasRead objects log call r content) :
    Linearizes P objects log call (checked P r putting content) := by
  unfold checked
  split
  · trivial
  rename_i hchecks
  rw [not_or, not_lt, ne_eq, not_not] at hchecks
  obtain ⟨j, stored, hreceived, hj, hstored, rfl⟩ := hread
  obtain ⟨hall, hintact⟩ := read_intact (P := P) (r := r) hchecks
  cases putting with
  | false =>
    obtain ⟨valid, hrequest⟩ := hgets
    rw [if_neg Bool.false_ne_true, hall]
    exact ⟨r, valid, j, hrequest, hreceived, hj, exec_get hstored hintact⟩
  | true =>
    obtain ⟨content, i, hputs, hi, hentry⟩ := hgets
    rw [if_pos rfl]
    refine ⟨content, i, hputs.request, hi, hentry, ?_⟩
    have hnext : log.take (i + 1) = log.take i ++ [(r, content)] := by
      rw [List.take_add_one, hentry]
      rfl
    rw [hnext, shelved_append]
    -- what is there just after the put is what was read later
    have hthere : ∃ there, (DocumentStore.putObject r content (shelved objects (log.take i))).objects r
        = some there := ⟨_, by rw [putObject_objects, if_pos rfl]⟩
    obtain ⟨there, hthere⟩ := hthere
    have hthere' : (shelved objects (log.take (i + 1))).objects r = some there := by
      rw [hnext, shelved_append]
      exact hthere
    have hsame : there = stored := objects_unique hthere' hstored
    exact exec_put .putRaw hputs.size hputs.reference (hsame ▸ hthere) hintact

section Steps

variable {I C T : Type} {s : ObjectStore I C T} {c : C} {call : StoreCall} {point : StorePoint}

theorem Puts.intact {request : StoreRequest} (h : Puts P request r content) : Intact P r content :=
  ⟨h.size, by rw [h.reference]⟩

theorem Shelved.setBreaker [DecidableEq I] {i : I} {breaker : CircuitBreaker T}
    (h : Shelved P objects s) : Shelved P objects (s.setBreaker i breaker) :=
  ⟨h.bucket, h.log, h.received, h.calls⟩

theorem calls_setPoint [DecidableEq C] {c' : C} {call' : StoreCall}
    (h : (s.setPoint c call point).calls c' = some call') :
    call' = { call with point } ∨ s.calls c' = some call' := by
  by_cases hsame : c' = c
  · subst hsame
    have hupdated : (s.setPoint c' call point).calls c' = some { call with point } :=
      Function.update_self ..
    exact Or.inl (Option.some.inj (h.symm.trans hupdated))
  · have hkept : (s.setPoint c call point).calls c' = s.calls c' := Function.update_of_ne hsame ..
    exact Or.inr (hkept ▸ h)

theorem Shelved.setPoint [DecidableEq C] (h : Shelved P objects s) (hc : s.calls c = some call)
    (hplaced : Placed P objects s.log { call with point }) :
    Shelved P objects (s.setPoint c call point) := by
  refine ⟨h.bucket, h.log, fun c' call' hc' => ?_, fun c' call' hc' => ?_⟩
  · rcases calls_setPoint hc' with rfl | hold
    · exact h.received c call hc
    · exact h.received c' call' hold
  · rcases calls_setPoint hc' with rfl | hold
    · exact hplaced
    · exact h.calls c' call' hold

/-- A put that reaches the bucket. -/
theorem Shelved.sent {request : StoreRequest} (h : Shelved P objects s)
    (hputs : Puts P request r content) : Shelved P objects { s with
      bucket := writeOnce s.bucket r.key content
      log := s.log ++ [(r, content)] } := by
  refine ⟨fun r' hr' => ?_, fun put hput => ?_, fun c call hc => ?_, fun c call hc => ?_⟩
  · show writeOnce s.bucket r.key content r'.key = (shelved objects (s.log ++ [(r, content)])).objects r'
    rw [shelved_append, putObject_objects, ← h.bucket r hputs.check, ← h.bucket r' hr']
    unfold writeOnce
    by_cases hsame : r' = r
    · subst hsame
      rw [if_pos rfl]
      cases hold : s.bucket r'.key with
      | none =>
        rw [if_neg (by simp)]
        exact Function.update_self ..
      | some stored =>
        rw [if_pos (by simp)]
        exact hold
    · rw [if_neg hsame]
      have hkey : r'.key ≠ r.key := fun hkey => hsame (key_injective hr' hputs.check hkey)
      split
      · rfl
      · exact Function.update_of_ne hkey ..
  · rcases List.mem_append.1 hput with hold | hnew
    · exact h.log put hold
    · rw [List.mem_singleton.1 hnew]
      exact ⟨hputs.check, hputs.intact⟩
  · have hreceived : call.received ≤ s.log.length := h.received c call hc
    show call.received ≤ (s.log ++ [(r, content)]).length
    rw [List.length_append]
    omega
  · exact (h.calls c call hc).grow

theorem placed_received (request : StoreRequest) (n : ℕ) :
    Placed P objects log ⟨request, ObjectStore.received P request, n⟩ := by
  cases request with
  | put tenantId kind content =>
    by_cases hsize : DocumentStore.maxBytes < content.size
    · have hpoint : ObjectStore.received P (.put tenantId kind content) =
          .ended (.raised .exceedsSizeLimit) := if_pos hsize
      rw [hpoint]
      trivial
    · by_cases hcheck : (ArtifactRef.mk tenantId kind (P.sha256 content)).check = true
      · have hpoint : ObjectStore.received P (.put tenantId kind content) =
            .enterPut ⟨tenantId, kind, P.sha256 content⟩ content :=
          (if_neg hsize).trans (if_pos hcheck)
        rw [hpoint]
        exact ⟨rfl, rfl, not_lt.1 hsize, hcheck⟩
      · have hpoint : ObjectStore.received P (.put tenantId kind content) =
            .ended (.raised .valueError) := (if_neg hsize).trans (if_neg hcheck)
        rw [hpoint]
        trivial
  | get tenantId reference valid =>
    by_cases htenant : tenantId = reference.tenantId
    · subst htenant
      have hpoint : ObjectStore.received P (.get reference.tenantId reference valid) =
          .enterGet reference false := if_neg (not_not.2 rfl)
      rw [hpoint]
      exact ⟨valid, rfl⟩
    · have hpoint : ObjectStore.received P (.get tenantId reference valid) =
          .ended (.raised .artifactUnavailable) := if_pos htenant
      rw [hpoint]
      trivial

theorem calls_received [DecidableEq C] {request : StoreRequest} {n : ℕ} {c' : C} {call' : StoreCall}
    (h : Function.update s.calls c (some ⟨request, ObjectStore.received P request, n⟩) c' =
      some call') :
    call' = ⟨request, ObjectStore.received P request, n⟩ ∨ s.calls c' = some call' := by
  by_cases hsame : c' = c
  · rw [hsame, Function.update_self] at h
    exact Or.inl (Option.some.inj h).symm
  · rw [Function.update_of_ne hsame] at h
    exact Or.inr h

theorem Shelved.receive [DecidableEq C] {request : StoreRequest} (h : Shelved P objects s) :
    Shelved P objects { s with
      calls := Function.update s.calls c
        (some ⟨request, ObjectStore.received P request, s.log.length⟩) } := by
  refine ⟨h.bucket, h.log, fun c' call' hc' => ?_, fun c' call' hc' => ?_⟩
  · rcases calls_received hc' with rfl | hold
    · exact le_rfl
    · exact h.received c' call' hold
  · rcases calls_received hc' with rfl | hold
    · exact placed_received request s.log.length
    · exact h.calls c' call' hold

variable [DecidableEq I] [DecidableEq C]

variable [Zero T] [LinearOrder T] [Sub T] {p : CircuitPolicy T} {i : I} {now : T}

theorem Shelved.enter {next : StorePoint} (h : Shelved P objects s) (hc : s.calls c = some call)
    (hnext : Placed P objects s.log { call with point := next }) :
    Shelved P objects (s.enter p i c call now next) := by
  unfold ObjectStore.enter
  split
  · exact h.setBreaker.setPoint hc hnext
  · exact h.setPoint hc trivial
  · exact h.setPoint hc trivial

/-- **One step of a call** keeps the bucket and the places of all calls. -/
theorem Shelved.proceed {transport : Transport} (h : Shelved P objects s)
    (hc : s.calls c = some call) :
    Shelved P objects (s.proceed p P i c call now transport) := by
  have hplaced := h.calls c call hc
  have hreceived := h.received c call hc
  unfold Placed at hplaced
  unfold ObjectStore.proceed
  cases hpoint : call.point with
  | enterPut r content =>
    rw [hpoint] at hplaced
    exact h.enter hc hplaced
  | putObject r content =>
    rw [hpoint] at hplaced
    have hputs : Puts P call.request r content := hplaced
    have hsent := h.sent hputs
    have hentry : (s.log ++ [(r, content)])[s.log.length]? = some (r, content) := by
      rw [List.getElem?_append_right le_rfl, Nat.sub_self]
      rfl
    cases transport with
    | served =>
      refine hsent.setPoint hc ?_
      exact fun _ => ⟨content, s.log.length, hputs, hreceived, hentry⟩
    | failed applied =>
      cases applied with
      | true => exact hsent.setPoint hc fun hfailed => absurd hfailed (by decide)
      | false => exact h.setPoint hc fun hfailed => absurd hfailed (by decide)
  | recordPut r failed =>
    rw [hpoint] at hplaced
    cases failed with
    | true => exact h.setBreaker.setPoint hc trivial
    | false =>
      have hsent : Sent P s.log call r := hplaced rfl
      exact h.setBreaker.setPoint hc hsent
  | enterGet r putting =>
    rw [hpoint] at hplaced
    exact h.enter hc hplaced
  | getObject r putting =>
    rw [hpoint] at hplaced
    have hgets : Gets P s.log call r putting := hplaced
    cases transport with
    | failed applied => exact h.setPoint hc fun content hread => absurd hread (by simp)
    | served =>
      refine h.setPoint hc fun content hread => ⟨hgets, ?_⟩
      obtain ⟨stored, hstored, rfl⟩ := Option.map_eq_some_iff.1 hread
      refine ⟨s.log.length, stored, hreceived, le_rfl, ?_, rfl⟩
      rw [List.take_length]
      have hcheck : r.check = true := by
        cases putting with
        | true =>
          obtain ⟨content, i, hputs, -, -⟩ := hgets
          exact hputs.check
        | false =>
          obtain ⟨valid, -⟩ := hgets
          exact valid
      rw [← h.bucket r hcheck]
      exact hstored
  | recordGet r putting content =>
    rw [hpoint] at hplaced
    cases content with
    | none => exact h.setBreaker.setPoint hc trivial
    | some content =>
      obtain ⟨hgets, hread⟩ := hplaced content rfl
      exact h.setBreaker.setPoint hc (linearizes_checked hgets hread)
  | ended reply => exact h

theorem step_shelved {storeOf : C → I} (e : StoreEvent C T) (h : Shelved P objects s) :
    Shelved P objects (ObjectStore.step p P storeOf s e) := by
  cases e with
  | receive c request =>
    simp only [ObjectStore.step]
    cases hc : s.calls c with
    | none => exact h.receive
    | some call => exact h
  | proceed c now transport =>
    simp only [ObjectStore.step]
    cases hc : s.calls c with
    | none => exact h
    | some call => exact h.proceed hc

end Steps

/-! ## Integrity -/

theorem checked_intact {putting : Bool} (h : Intact P r content) :
    checked P r putting content ≠ .raised .integrityFailed := by
  unfold checked
  rw [if_neg h.passes]
  split
  · exact StoreReply.noConfusion
  · exact StoreReply.noConfusion

section Sound

variable {I C T : Type} {s : ObjectStore I C T} {c : C} {call : StoreCall} {point : StorePoint}

/-- No call has found an object that is not what its reference says. -/
def Sound (s : ObjectStore I C T) : Prop :=
  ∀ c call, s.calls c = some call → call.point ≠ .ended (.raised .integrityFailed)

theorem Sound.setPoint [DecidableEq C] (h : Sound s)
    (hpoint : point ≠ .ended (.raised .integrityFailed)) : Sound (s.setPoint c call point) := by
  intro c' call' hc'
  rcases calls_setPoint hc' with rfl | hold
  · exact hpoint
  · exact h c' call' hold

theorem received_sound (request : StoreRequest) :
    ObjectStore.received P request ≠ .ended (.raised .integrityFailed) := by
  cases request with
  | put tenantId kind content =>
    simp only [ObjectStore.received]
    split
    · simp
    · split <;> simp
  | get tenantId reference valid =>
    simp only [ObjectStore.received]
    split <;> simp

variable [DecidableEq I] [DecidableEq C] [Zero T] [LinearOrder T] [Sub T] {p : CircuitPolicy T}
  {i : I} {now : T}

theorem Sound.enter {next : StorePoint} (h : Sound s)
    (hnext : next ≠ .ended (.raised .integrityFailed)) : Sound (s.enter p i c call now next) := by
  unfold ObjectStore.enter
  split
  · exact Sound.setPoint (s := s.setBreaker i _) h hnext
  · exact h.setPoint (by simp)
  · exact h.setPoint (by simp)

/-- **An object that only puts have written is what its reference says.** -/
theorem Sound.proceed {transport : Transport} (h : Sound s) (hs : Shelved P (fun _ => none) s)
    (hc : s.calls c = some call) : Sound (s.proceed p P i c call now transport) := by
  have hplaced := hs.calls c call hc
  unfold Placed at hplaced
  unfold ObjectStore.proceed
  cases hpoint : call.point with
  | enterPut r content => exact h.enter (by simp)
  | putObject r content =>
    cases transport with
    | served => exact Sound.setPoint (s := { s with bucket := _, log := _ }) h (by simp)
    | failed applied =>
      cases applied with
      | true => exact Sound.setPoint (s := { s with bucket := _, log := _ }) h (by simp)
      | false => exact h.setPoint (by simp)
  | recordPut r failed =>
    cases failed with
    | true => exact Sound.setPoint (s := s.setBreaker i _) h (by simp)
    | false => exact Sound.setPoint (s := s.setBreaker i _) h (by simp)
  | enterGet r putting => exact h.enter (by simp)
  | getObject r putting =>
    cases transport with
    | served => exact h.setPoint (by simp)
    | failed applied => exact h.setPoint (by simp)
  | recordGet r putting content =>
    rw [hpoint] at hplaced
    cases content with
    | none => exact Sound.setPoint (s := s.setBreaker i _) h (by simp)
    | some content =>
      refine Sound.setPoint (s := s.setBreaker i _) h ?_
      obtain ⟨-, j, stored, -, -, hstored, rfl⟩ := hplaced content rfl
      rcases objects_cases hstored with hnone | hentry
      · cases hnone
      · have hintact : Intact P r stored := (hs.log _ (List.mem_of_mem_take hentry)).2
        rw [read_of_small hintact.1]
        exact fun hended => checked_intact hintact (StorePoint.ended.inj hended)
  | ended reply => exact h

theorem step_sound {storeOf : C → I} (e : StoreEvent C T) (h : Sound s)
    (hs : Shelved P (fun _ => none) s) : Sound (ObjectStore.step p P storeOf s e) := by
  cases e with
  | receive c request =>
    simp only [ObjectStore.step]
    cases hc : s.calls c with
    | none =>
      intro c' call' hc'
      rcases calls_received hc' with rfl | hold
      · exact received_sound request
      · exact h c' call' hold
    | some call => exact h
  | proceed c now transport =>
    simp only [ObjectStore.step]
    cases hc : s.calls c with
    | none => exact h
    | some call => exact h.proceed hs hc

end Sound

/-! ## Runs -/

section Runs

variable {I C T : Type} [DecidableEq I] [DecidableEq C] [Zero T] [LinearOrder T] [Sub T]

/-- What a `get` has returned was there. -/
theorem exec_get_found {w' : World} (h : exec (DocumentStore.get P r) w = (.ok content, w')) :
    w.objects r = some content := by
  have hwp : wp (DocumentStore.get P r) (fun content _ => w.objects r = some content)
      (fun _ _ => True) w := by
    simp only [DocumentStore.get, wp_bind, wp_orRaise]
    refine ⟨fun content hcontent => ?_, fun _ => trivial⟩
    split
    · trivial
    · exact hcontent
  exact wp_ok hwp h

/-- The state of a run from a bucket, with no call yet. -/
def started (bucket : String → Option ByteArray) : ObjectStore I C T := { bucket }

theorem run_shelved (P : Platform) (p : CircuitPolicy T) (storeOf : C → I)
    (bucket : String → Option ByteArray) (es : List (StoreEvent C T)) :
    Shelved P (fun r => bucket r.key) (Machine.run (step p P storeOf) (started bucket) es) := by
  refine Machine.run_inv (fun s e h => step_shelved e h) ?_
  refine ⟨fun r _ => rfl, fun put hput => ?_, fun c call hc => ?_, fun c call hc => ?_⟩
  · exact absurd hput List.not_mem_nil
  · cases hc
  · cases hc

/-- **The store of artifacts is atomic and write-once**: whatever calls of whatever stores overlap,
and whatever requests fail, the bucket holds what atomic puts leave, in the order in which they
reached it; every call that returns has returned what the atomic operation returns at a moment while
it ran; all that is read of one artifact is one content; and if the bucket began empty, its objects
are always found intact. -/
theorem artifacts_linearizable (P : Platform) (p : CircuitPolicy T) (storeOf : C → I)
    (bucket : String → Option ByteArray) (es : List (StoreEvent C T)) :
    let s := Machine.run (step p P storeOf) (started bucket) es
    (∀ r, r.check = true → s.bucket r.key = (shelved (fun r => bucket r.key) s.log).objects r) ∧
      (∀ c call reply, s.calls c = some call → call.point = .ended reply →
        Linearizes P (fun r => bucket r.key) s.log call reply) ∧
      (∀ r c c' call call' content content', s.calls c = some call → s.calls c' = some call' →
        (∃ valid, call.request = .get r.tenantId r valid) →
        (∃ valid, call'.request = .get r.tenantId r valid) →
        call.point = .ended (.content content) → call'.point = .ended (.content content') →
        content = content') ∧
      ((∀ key, bucket key = none) → ∀ c call, s.calls c = some call →
        call.point ≠ .ended (.raised .integrityFailed)) := by
  intro s
  have hshelved : Shelved P (fun r => bucket r.key) s := run_shelved P p storeOf bucket es
  have hlinear : ∀ c call reply, s.calls c = some call → call.point = .ended reply →
      Linearizes P (fun r => bucket r.key) s.log call reply := by
    intro c call reply hc hended
    have hplaced := hshelved.calls c call hc
    unfold Placed at hplaced
    rw [hended] at hplaced
    exact hplaced
  refine ⟨hshelved.bucket, hlinear, ?_, ?_⟩
  · rintro r c c' call call' content content' hc hc' ⟨valid, hrequest⟩ ⟨valid', hrequest'⟩ hend hend'
    obtain ⟨r₁, valid₁, i, hrequest₁, -, -, hexec⟩ := hlinear c call _ hc hend
    obtain ⟨r₂, valid₂, j, hrequest₂, -, -, hexec'⟩ := hlinear c' call' _ hc' hend'
    obtain ⟨-, rfl⟩ := StoreRequest.get.inj (hrequest.symm.trans hrequest₁)
    obtain ⟨-, rfl⟩ := StoreRequest.get.inj (hrequest'.symm.trans hrequest₂)
    exact objects_unique (exec_get_found hexec) (exec_get_found hexec')
  · intro hempty
    have hnone : (fun r : ArtifactRef => bucket r.key) = fun _ => none :=
      funext fun r => hempty r.key
    have hrun : Sound s ∧ Shelved P (fun _ => none) s := by
      refine Machine.run_inv (I := fun s => Sound s ∧ Shelved P (fun _ => none) s) ?_ ?_
      · intro s e h
        exact ⟨step_sound e h.1 h.2, step_shelved e h.2⟩
      · have hstart := run_shelved P p storeOf bucket []
        rw [hnone] at hstart
        have hsound : Sound (started bucket : ObjectStore I C T) := by
          intro c call hc
          cases hc
        exact ⟨hsound, hstart⟩
    exact hrun.1

end Runs

end ObjectStore

end GroundedOps.Ingestion
