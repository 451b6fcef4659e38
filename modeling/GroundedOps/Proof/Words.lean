import GroundedOps.Proof.Verification

/-!
# Which words the token check sees

The tokens of a text are its runs of ASCII letters and digits, so a word of other letters
leaves no token, and a word with an accent leaves the pieces around it.

* `Plain`: every letter and digit of a text folds to ASCII letters and digits.
* `words_of_plain`: the words of a plain text are its tokens.
* `verified_words_iff`: **over plain evidence, the words of a verified answer are all in what
  it cites exactly when its claims are plain.**
-/

namespace GroundedOps

open Hoare PolicyEnforcer CitationVerifier

/-! ## Plain texts -/

/-- Every letter and digit folds to ASCII letters and digits. -/
def Unicode.Plain (u : Unicode) (text : String) : Prop :=
  ∀ c ∈ text.toList, u.isAlnum c = true → ∀ d ∈ u.fold c, isTokenChar d = true

section Plain

variable {u : Unicode} {text : String} {word : String}

theorem asciiWords_eq (text : String) :
    asciiWords text = (Runs.runs isTokenChar text.toList).map String.ofList := rfl

/-- **The tokens of a plain text are its words.** -/
theorem words_of_plain (h : u.Plain text) : tokens u.casefold text = u.words text := by
  have hruns : Runs.runs isTokenChar (text.toList.flatMap u.fold) =
      (Runs.runs u.isAlnum text.toList).map (List.flatMap u.fold) := by
    refine Runs.runs_flatMap (fun c hc halnum => ?_) (fun c _ hother => ?_)
    · exact ⟨u.fold_ne_nil c, h c hc halnum⟩
    · exact ⟨u.fold_ne_nil c, u.fold_separator c hother⟩
  unfold tokens Unicode.casefold Unicode.words
  rw [asciiWords_eq, String.toList_ofList, hruns, List.map_map]
  rfl

/-- A token is made of ASCII letters and digits. -/
theorem isTokenChar_of_mem_tokens {casefold : String → String} {token : String} {d : Char}
    (h : token ∈ tokens casefold text) (hd : d ∈ token.toList) : isTokenChar d = true := by
  unfold tokens at h
  rw [asciiWords_eq] at h
  obtain ⟨run, hrun, rfl⟩ := List.mem_map.1 h
  rw [String.toList_ofList] at hd
  exact (Runs.mem_run hrun hd).2

/-- A text whose words are all tokens of some text is plain. -/
theorem plain_of_words (casefold : String → String)
    (h : ∀ word ∈ u.words text, ∃ other, word ∈ tokens casefold other) : u.Plain text := by
  intro c hc halnum d hd
  obtain ⟨run, hrun, hin⟩ := Runs.exists_run hc halnum
  have hword : String.ofList (run.flatMap u.fold) ∈ u.words text := List.mem_map_of_mem hrun
  obtain ⟨other, htoken⟩ := h _ hword
  refine isTokenChar_of_mem_tokens htoken ?_
  rw [String.toList_ofList]
  exact List.mem_flatMap.2 ⟨c, hin, hd⟩

end Plain

/-! ## Verified answers -/

/-- Every word of a claim is a word of an item that the claim cites. -/
def WordsSupported (u : Unicode) (evidence : List Evidence) (answer : GroundedAnswer) : Prop :=
  ∀ claim ∈ answer.claims, ∀ word ∈ u.words claim.text, ∃ citation ∈ claim.citations,
    ∃ item ∈ evidence, identity item = citation.identity ∧ word ∈ u.words item.text

/-- The items that the answer cites are plain. -/
def PlainEvidence (u : Unicode) (evidence : List Evidence) (answer : GroundedAnswer) : Prop :=
  ∀ claim ∈ answer.claims, ∀ citation ∈ claim.citations, ∀ item ∈ evidence,
    identity item = citation.identity → u.Plain item.text

section Verified

variable {u : Unicode} {access : PolicyAccess} {correlationId : String} {evidence : List Evidence}
  {principal : Principal} {log log' : PolicyLog} {claims : List Claim}

/-- The tokens of a verified claim are in what it cites. -/
theorem tokens_of_supported {casefold : String → String} {claim : Claim}
    (h : Supported casefold access correlationId evidence principal claim log log') :
    ∀ token ∈ tokens casefold claim.text, ∃ citation ∈ claim.citations, ∃ item ∈ evidence,
      identity item = citation.identity ∧ token ∈ CitationVerifier.tokens casefold item.text := by
  intro token htoken
  obtain ⟨items, _, _, hitems, -, -, -, htokens⟩ := h.verdict
  obtain ⟨item, hitem, hin⟩ := htokens token htoken
  obtain ⟨citation, hcitation, hcites⟩ := (Lists.exists_of_forall₂ hitems).2 item hitem
  have hid : identity item = citation.identity := by simpa using List.find?_some hcites
  exact ⟨citation, hcitation, item, List.mem_of_find?_eq_some hcites, hid, hin⟩

theorem CitationVerifier.AllSupported.tokens {casefold : String → String}
    (h : AllSupported casefold access correlationId evidence principal claims log log') :
    ∀ claim ∈ claims, ∀ token ∈ tokens casefold claim.text, ∃ citation ∈ claim.citations,
      ∃ item ∈ evidence, identity item = citation.identity ∧
        token ∈ CitationVerifier.tokens casefold item.text := by
  induction h with
  | nil => intro _ hmem; cases hmem
  | cons hhead _ ih =>
    intro claim hmem
    rcases List.mem_cons.1 hmem with rfl | hmem
    · exact tokens_of_supported hhead
    · exact ih claim hmem

/-- The words of the verified answer are those of the draft, in what it cites. -/
theorem wordsSupported_congr {answer : GroundedAnswer} {result : VerificationResult}
    (h : VerdictVerified answer result) :
    WordsSupported u evidence result.answer ↔ WordsSupported u evidence answer := by
  unfold WordsSupported
  rw [h.claims]
  constructor
  · intro hall claim hclaim word hword
    obtain ⟨citation, hcitation, item, hitem, hid, hin⟩ :=
      hall (resolvedClaim claim) (List.mem_map_of_mem hclaim) word hword
    obtain ⟨original, horiginal, rfl⟩ := List.mem_map.1 hcitation
    exact ⟨original, horiginal, item, hitem, hid, hin⟩
  · intro hall claim hclaim word hword
    obtain ⟨original, horiginal, rfl⟩ := List.mem_map.1 hclaim
    obtain ⟨citation, hcitation, item, hitem, hid, hin⟩ := hall original horiginal word hword
    exact ⟨citation.resolve, List.mem_map_of_mem hcitation, item, hitem, hid, hin⟩

/-- An answer without claims is not verified. -/
theorem verify_no_claims {casefold : String → String} {answer : GroundedAnswer}
    {evidenceSet : EvidenceSet} (hstatus : answer.status ≠ .abstained) (hclaims : answer.claims = []) :
    wp (verify casefold access correlationId answer evidenceSet principal) (fun _ _ => False)
      (fun _ _ => True) log := by
  unfold verify
  simp only [hstatus, if_false, wp_bind, hclaims]
  rw [verifyClaims, wp_pure]
  trivial

/-- **Tokens are the words of plain texts only.** Where the verifier marks a draft verified whose
cited items are plain, every word of its claims is in what they cite if and only if the claims
are plain. -/
theorem verified_words_iff (u : Unicode) (access : PolicyAccess) (correlationId : String)
    (answer : GroundedAnswer) (evidenceSet : EvidenceSet) (principal : Principal) (log : PolicyLog)
    (hdraft : answer.status ≠ .verified) (hplain : PlainEvidence u evidenceSet.evidence answer) :
    wp (verify u.casefold access correlationId answer evidenceSet principal)
      (fun result _ => result.answer.status = .verified →
        (WordsSupported u evidenceSet.evidence result.answer ↔
          ∀ claim ∈ answer.claims, u.Plain claim.text))
      (fun _ _ => True) log := by
  by_cases hstatus : answer.status = .abstained
  · unfold verify
    rw [if_pos hstatus, wp_pure]
    exact fun h => absurd h hdraft
  by_cases hclaims : answer.claims = []
  · exact wp_mono (verify_no_claims hstatus hclaims) (fun _ _ h => h.elim) (fun _ _ h => h)
  refine wp_mono (verify_cases hstatus hclaims) (fun result log' h => ?_) (fun _ _ _ => trivial)
  rcases h with ⟨hall, hverified⟩ | ⟨-, hfailed⟩
  · intro _
    rw [wordsSupported_congr hverified]
    constructor
    · intro hwords claim hclaim
      refine plain_of_words u.casefold fun word hword => ?_
      obtain ⟨citation, hcitation, item, hitem, hid, hin⟩ := hwords claim hclaim word hword
      have hitemPlain := hplain claim hclaim citation hcitation item hitem hid
      exact ⟨item.text, by rwa [words_of_plain hitemPlain]⟩
    · intro hclaimsPlain claim hclaim word hword
      rw [← words_of_plain (hclaimsPlain claim hclaim)] at hword
      obtain ⟨citation, hcitation, item, hitem, hid, hin⟩ := hall.tokens claim hclaim word hword
      have hitemPlain := hplain claim hclaim citation hcitation item hitem hid
      exact ⟨citation, hcitation, item, hitem, hid, by rwa [← words_of_plain hitemPlain]⟩
  · intro hmarked
    rw [hfailed.answer_eq] at hmarked
    exact absurd hmarked hdraft

end Verified

/-! ## Two scripts -/

def isTwoScriptsAlnum (c : Char) : Bool :=
  c.isAlphanum || (0x430 ≤ c.toNat && c.toNat ≤ 0x44f)

def foldTwoScripts (c : Char) : List Char := if c.isUpper then [c.toLower] else [c]

theorem foldTwoScripts_ne_nil (c : Char) : foldTwoScripts c ≠ [] := by
  unfold foldTwoScripts
  split
  · exact List.cons_ne_nil _ _
  · exact List.cons_ne_nil _ _

theorem foldTwoScripts_separator (c : Char) (h : isTwoScriptsAlnum c = false) :
    ∀ d ∈ foldTwoScripts c, isTokenChar d = false := by
  intro d hd
  obtain ⟨hascii, -⟩ := Bool.or_eq_false_iff.1 h
  have hparts : (c.isUpper || c.isLower || c.isDigit) = false := hascii
  rw [Bool.or_eq_false_iff, Bool.or_eq_false_iff] at hparts
  obtain ⟨⟨hupper, hlower⟩, hdigit⟩ := hparts
  unfold foldTwoScripts at hd
  rw [hupper, if_neg Bool.false_ne_true, List.mem_singleton] at hd
  rw [hd, isTokenChar, hlower, hdigit]
  rfl

/-- Latin and Cyrillic letters, of which only the Latin capitals are folded. -/
def twoScripts : Unicode where
  isAlnum := isTwoScriptsAlnum
  fold := foldTwoScripts
  fold_ne_nil := foldTwoScripts_ne_nil
  fold_separator := foldTwoScripts_separator

/-- A claim in Cyrillic letters. -/
def cyrillicDraft : GroundedAnswer :=
  { question := (draftOf versionCitation).question
    claims := [⟨"да", [versionCitation], by decide⟩]
    status := .unverified
    usage := (draftOf versionCitation).usage
    valid := rfl }

/-- A claim without ASCII letters is verified by an item that says something else. -/
theorem unseen_word_verified : ¬ ∀ (u : Unicode) (access : PolicyAccess) (correlationId : String)
    (answer : GroundedAnswer) (evidenceSet : EvidenceSet) (principal : Principal) (log : PolicyLog),
    wp (verify u.casefold access correlationId answer evidenceSet principal)
      (fun result _ => result.answer.status = .verified →
        WordsSupported u evidenceSet.evidence result.answer) (fun _ _ => True) log := by
  intro h
  have hrun : ((exec (verify twoScripts.casefold publicStores "correlation" cyrillicDraft
      (citedSet [citedItem "v-1" "нет"]) someReader) {}).1.map
        fun result => (result.answer.status, result.answer.claims.map Claim.text)) =
      .ok (.verified, ["да"]) := by decide +kernel
  have hall := h twoScripts publicStores "correlation" cyrillicDraft
    (citedSet [citedItem "v-1" "нет"]) someReader {}
  have hwp := wp_and hall wp_self
  unfold wp at hwp
  split at hwp
  · rename_i result log' hexec
    rw [hexec] at hrun
    have hresult : (result.answer.status, result.answer.claims.map Claim.text) =
        (.verified, ["да"]) := Except.ok.inj hrun
    have hstatus : result.answer.status = .verified := congrArg Prod.fst hresult
    have htexts : result.answer.claims.map Claim.text = ["да"] := congrArg Prod.snd hresult
    obtain ⟨claim, hclaim, htext⟩ := List.mem_map.1 (htexts ▸ List.mem_singleton_self "да")
    have hword : "да" ∈ twoScripts.words claim.text := by
      rw [htext]
      decide +kernel
    obtain ⟨_, -, item, hitem, -, hin⟩ := hwp.1 hstatus claim hclaim "да" hword
    obtain rfl := List.mem_singleton.1 hitem
    exact absurd hin (by decide +kernel)
  · rename_i raised log' hexec
    rw [hexec] at hrun
    cases hrun

/-- An ASCII claim over ASCII evidence. -/
theorem verified_words_plain :
    ∃ result, (exec (verify twoScripts.casefold publicStores "correlation"
      (draftOf versionCitation) (citedSet [citedItem "v-1" "because"]) someReader) {}).1 =
        .ok result ∧
      (result.answer.status = .verified →
        (WordsSupported twoScripts [citedItem "v-1" "because"] result.answer ↔
          ∀ claim ∈ (draftOf versionCitation).claims, twoScripts.Plain claim.text)) := by
  have hplain : PlainEvidence twoScripts [citedItem "v-1" "because"] (draftOf versionCitation) := by
    intro claim _ citation _ item hitem _
    obtain rfl := List.mem_singleton.1 hitem
    have hall : ("because".toList.all fun ch => (twoScripts.fold ch).all isTokenChar) = true := by
      decide +kernel
    intro ch hch _ d hd
    exact List.all_eq_true.1 (List.all_eq_true.1 hall ch hch) d hd
  have hiff := verified_words_iff twoScripts publicStores "correlation" (draftOf versionCitation)
    (citedSet [citedItem "v-1" "because"]) someReader {} (by decide) hplain
  have hrun : ((exec (verify twoScripts.casefold publicStores "correlation"
      (draftOf versionCitation) (citedSet [citedItem "v-1" "because"]) someReader) {}).1.map
        fun result => result.answer.status) = .ok .verified := by decide +kernel
  have hwp := wp_and hiff wp_self
  unfold wp at hwp
  split at hwp
  · rename_i result log' hexec
    exact ⟨result, by rw [hexec], hwp.1⟩
  · rename_i raised log' hexec
    rw [hexec] at hrun
    cases hrun

end GroundedOps
