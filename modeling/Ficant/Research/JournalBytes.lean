import Ficant.Research.RunJournal

namespace Ficant

open Lib

/-!
# The preimage of a journal event's hash

`RunJournalInput.canonicalBytes` determines every field of the event.

* `NaiveDate` and `DateTime` enter as fixed-width numbers; chrono's ranges lie inside them.
* `RunJournalInput.Encodable` — what the source's types say of an input: a 64-bit sequence, and a
  preimage short enough for 64-bit lengths.
-/

/-! ### Fields -/

/-- The text of an identity determines it. -/
theorem injects_ulid : Injects (fun _ => True) fun id : Ulid => utf8 id.text :=
  injects_of_injective fun _ _ h => Ulid.text_injective (utf8_inj h)

/-- Bytes determine themselves. -/
theorem injects_bytes : Injects (fun _ => True) fun bytes : List UInt8 => bytes :=
  injects_of_injective fun _ _ h => h

/-- The bytes of a text determine it. -/
theorem injects_utf8 : Injects (fun _ => True) utf8 := injects_of_injective fun _ _ h => utf8_inj h

/-- The bytes of a hash determine it. -/
theorem injects_hash : Injects (fun _ => True) ContentHash.bytes :=
  injects_of_injective fun a b h => by
    cases a
    cases b
    simpa using h

/-- The bytes of a number determine it within their width. -/
theorem injects_bigEndian (width : ℕ) : Injects (fun n => n < 256 ^ width) (bigEndian width) :=
  (separable_bigEndian width).injects

/-- The bytes of an optional hash determine it, absence included. -/
theorem injects_optionalHash : Injects (fun _ => True) (writeOptional ContentHash.bytes) := by
  have hbytes : Separable (fun _ => True) ContentHash.bytes :=
    separable_of_length ContentHash.length_eq fun a b _ _ h =>
      injects_hash a b trivial trivial (by rw [a.length_eq]; decide) (by rw [b.length_eq]; decide) h
  exact fun a b _ _ la lb h => (separable_writeOptional hbytes).injects a b (by simp) (by simp) la lb h

/-- The seconds of an instant, as a 64-bit two's-complement number. -/
def secondsBytes (t : DateTime) : List UInt8 :=
  bigEndian 8 (RunJournalInput.timestampSeconds t % 2 ^ 64).toNat

/-- The nanoseconds within the second, as a 32-bit number. -/
def nanosBytes (t : DateTime) : List UInt8 := bigEndian 4 (RunJournalInput.subsecNanos t)

/-- Seconds and nanoseconds determine the instant. -/
theorem instant_eq_of_bytes {s t : DateTime} (hseconds : secondsBytes s = secondsBytes t)
    (hnanos : nanosBytes s = nanosBytes t) : s = t := by
  have hbound : ∀ x : ℤ, (x % 2 ^ 64).toNat < 256 ^ 8 := fun x => by omega
  have h₁ := bigEndian_inj (hbound _) (hbound _) hseconds
  have hsub : ∀ u : DateTime, RunJournalInput.subsecNanos u < 256 ^ 4 := by
    intro u
    rw [RunJournalInput.subsecNanos]
    have := u.subsec_lt
    omega
  have h₂ := bigEndian_inj (hsub s) (hsub t) hnanos
  have := s.lower
  have := s.upper
  have := t.lower
  have := t.upper
  -- chrono's range in seconds lies inside the 64-bit range, so nothing wraps
  simp only [RunJournalInput.timestampSeconds, RunJournalInput.subsecNanos] at h₁ h₂
  exact DateTime.ext (by omega) h₂

/-- A date as the journal writes it: the year in four bytes, the month and the day in one. -/
def dateBytes (d : NaiveDate) : List UInt8 :=
  bigEndian 4 (d.year % 2 ^ 32).toNat ++ bigEndian 1 d.month ++ bigEndian 1 d.day

/-- The bytes of a date determine it. -/
theorem injects_date : Injects (fun _ => True) dateBytes := by
  intro a b _ _ _ _ h
  obtain ⟨hfirst, hday⟩ := List.append_inj h (by simp)
  obtain ⟨hyear, hmonth⟩ := List.append_inj hfirst (by simp)
  have hda := a.day_le_31
  have hdb := b.day_le_31
  obtain ⟨ya, ma, da, _, _, _, _, _, _⟩ := a
  obtain ⟨yb, mb, db, _, _, _, _, _, _⟩ := b
  simp only at hyear hmonth hday hda hdb
  have hyears := bigEndian_inj (by omega) (by omega) hyear
  obtain rfl := bigEndian_inj (by omega) (by omega) hmonth
  obtain rfl := bigEndian_inj (by omega) (by omega) hday
  -- chrono's years lie inside the 32-bit range
  obtain rfl : ya = yb := by omega
  rfl

/-- No two kinds of event share a code. -/
theorem canonicalCode_injective : Function.Injective JournalEventType.canonicalCode := by
  intro a b h
  cases a <;> cases b <;> first | rfl | cases h

/-- The byte of a kind of event determines it. -/
theorem injects_eventType :
    Injects (fun _ => True) fun kind : JournalEventType => bigEndian 1 kind.canonicalCode := by
  intro a b _ _ la lb h
  have hsmall : ∀ kind : JournalEventType, kind.canonicalCode < 256 ^ 1 := by
    intro kind
    cases kind <;> decide
  exact canonicalCode_injective (bigEndian_inj (hsmall a) (hsmall b) h)

/-! ### Events -/

/-- What the source's types say of an input: a 64-bit sequence, and a preimage that is short enough
    for the 64-bit lengths in it. -/
structure RunJournalInput.Encodable (input : RunJournalInput) : Prop where
  sequence : input.sequence < 2 ^ 64
  length : input.canonicalBytes.length < lengthLimit

/-- **The preimage of an event's hash determines the event.** -/
theorem RunJournalInput.canonicalBytes_inj {a b : RunJournalInput} (ha : a.Encodable)
    (hb : b.Encodable) (h : a.canonicalBytes = b.canonicalBytes) : a = b := by
  have hreads := (((((((((((((Reads.tag (fun i : RunJournalInput => i.sequence < 2 ^ 64)
    (utf8 "FJRN" ++ bigEndian 2 1)).append
    (injects_ulid.reads (bigEndian 1 1) RunJournalInput.journalEventId fun _ _ => trivial)).append
    (injects_ulid.reads (bigEndian 1 2) RunJournalInput.runId fun _ _ => trivial)).append
    ((injects_bigEndian 8).reads (bigEndian 1 3) RunJournalInput.sequence fun _ h => h)).append
    (injects_eventType.reads (bigEndian 1 4) RunJournalInput.eventType fun _ _ => trivial)).append
    (injects_bytes.reads (bigEndian 1 5)
      (fun i : RunJournalInput => secondsBytes i.occurredAt.instant) fun _ _ => trivial)).append
    (injects_bytes.reads (bigEndian 1 6)
      (fun i : RunJournalInput => nanosBytes i.occurredAt.instant) fun _ _ => trivial)).append
    (injects_utf8.reads (bigEndian 1 7)
      (fun i : RunJournalInput => i.occurredAt.marketTimezone) fun _ _ => trivial)).append
    (injects_date.reads (bigEndian 1 8)
      (fun i : RunJournalInput => i.occurredAt.localTradingDate) fun _ _ => trivial)).append
    (injects_utf8.reads (bigEndian 1 9) RunJournalInput.payloadType fun _ _ => trivial)).append
    (injects_utf8.reads (bigEndian 1 10) RunJournalInput.payloadSchema fun _ _ => trivial)).append
    (injects_bytes.reads (bigEndian 1 11)
      RunJournalInput.payload fun _ _ => trivial)).append
    (injects_optionalHash.reads (bigEndian 1 12) RunJournalInput.prevHash fun _ _ => trivial))
  have hfields := (hreads a b [] [] ha.sequence hb.sequence ha.length hb.length (by
    rw [List.append_nil, List.append_nil]
    exact h)).1
  -- Every field is read back from behind its own tag.
  simp only [Prod.mk.injEq, true_and] at hfields
  obtain ⟨⟨⟨⟨⟨⟨⟨⟨⟨⟨⟨hid, hrun⟩, hsequence⟩, htype⟩, hseconds⟩, hnanos⟩, hzone⟩, hdate⟩, hptype⟩,
    hschema⟩, hpayload⟩, hprev⟩ := hfields
  -- Seconds and nanoseconds are written apart, so the instant is bound in full.
  have htime : a.occurredAt = b.occurredAt := by
    have hinstant := instant_eq_of_bytes hseconds hnanos
    cases hx : a.occurredAt
    cases hy : b.occurredAt
    rw [hx] at hinstant hzone hdate
    rw [hy] at hinstant hzone hdate
    simp only at hinstant hzone hdate
    rw [hinstant, hzone, hdate]
  cases a
  cases b
  simp only at hid hrun hsequence htype htime hptype hschema hpayload hprev
  rw [hid, hrun, hsequence, htype, htime, hptype, hschema, hpayload, hprev]

/-- Canonical events with one hash are one event, where the digest keeps their preimages apart. -/
theorem RunJournal.eq_of_eventHash {digest : List UInt8 → ContentHash} {a b : RunJournal}
    (ha : a.verifyCanonical digest = .ok ()) (hb : b.verifyCanonical digest = .ok ())
    (hea : a.input.Encodable) (heb : b.input.Encodable)
    (hdigest : NoCollision digest a.input.canonicalBytes b.input.canonicalBytes)
    (h : a.eventHash = b.eventHash) : a = b := by
  have hash_a := eventHash_of_verifyCanonical ha
  have hash_b := eventHash_of_verifyCanonical hb
  have hbytes := hdigest (by rw [← hash_a, ← hash_b, h])
  have hinput := RunJournalInput.canonicalBytes_inj hea heb hbytes
  cases a
  cases b
  simp only at h hinput
  rw [h, hinput]

end Ficant
