import Ficant.Analytics.Bond
import Ficant.Lib.Chunks
import Ficant.Primitives.FixedArithmetic
import Ficant.Research.JournalBytes

namespace Ficant.Analytics

open Lib

/-!
# Values of an input fingerprint

The fingerprints of analytics inputs are digests of values behind their lengths
(`field` in `ficant-domain/src/futures_delivery.rs` and `ficant-domain/src/curves.rs`).

* `refValues`, `dateValue`, `u32Value` — what is written for a part of an input;
* `delimited_refValues`, `dateValue_injective`, … — each is determined by what is written for it.
-/

/-- The values of an object reference. -/
def refValues (reference : AnalyticsObjectRef) : List (List UInt8) :=
  [utf8 reference.versionRef.id.text, bigEndian 8 reference.versionRef.version.value,
    reference.contentHash.bytes]

/-- The value of a date. -/
def dateValue (date : NaiveDate) : List UInt8 := utf8 date.text

/-- The value of a 32-bit number. -/
def u32Value (n : UInt32) : List UInt8 := bigEndian 4 n.toNat

/-- The value of an identity. -/
def idValue (id : Ulid) : List UInt8 := utf8 id.text

/-- The value of an enumeration, from its discriminant. -/
def codeValue (code : ℕ) : List UInt8 := bigEndian 4 code

/-! ### What is written determines the part -/

/-- What is written of a value tells it apart; so for all of them that follow. -/
theorem idValue_injective : Function.Injective idValue :=
  fun _ _ h => Ulid.text_injective (utf8_inj h)

theorem dateValue_injective : Function.Injective dateValue :=
  fun _ _ h => NaiveDate.text_injective (utf8_inj h)

theorem u32Value_injective : Function.Injective u32Value :=
  fun a b h => UInt32.toNat_inj.mp (bigEndian_inj a.toNat_lt b.toNat_lt h)

theorem versionValue_inj {a b : Version} (h : bigEndian 8 a.value = bigEndian 8 b.value) : a = b := by
  have hvalue := bigEndian_inj a.fits b.fits h
  cases a
  cases b
  simpa using hvalue

theorem hashBytes_injective : Function.Injective ContentHash.bytes := by
  intro a b h
  cases a
  cases b
  simpa using h

/-- A reference takes as many values as every other one. -/
theorem delimited_refValues : Delimited refValues := by
  rintro ⟨⟨id, version⟩, hash⟩ ⟨⟨id', version'⟩, hash'⟩ r s h
  simp only [refValues, List.cons_append, List.nil_append, List.cons.injEq] at h
  obtain ⟨hid, hversion, hhash, hrest⟩ := h
  obtain rfl := idValue_injective hid
  obtain rfl := versionValue_inj hversion
  obtain rfl := hashBytes_injective hhash
  exact ⟨rfl, hrest⟩

/-- An enumeration is determined by the bytes of its discriminant. -/
theorem codeValue_inj {α : Type} {code : α → ℕ} {width : ℕ} (hcode : Function.Injective code)
    (hwidth : ∀ a, code a < 256 ^ width) {a b : α}
    (h : bigEndian width (code a) = bigEndian width (code b)) : a = b :=
  hcode (bigEndian_inj (hwidth a) (hwidth b) h)

theorem frequency_code_injective : Function.Injective CouponFrequency.code := by
  intro a b h
  cases a <;> cases b <;> first | rfl | cases h

/-- A frequency is written as its code. -/
theorem frequencyValue_inj {a b : CouponFrequency} (h : codeValue a.code = codeValue b.code) :
    a = b := codeValue_inj frequency_code_injective (fun a => by cases a <;> decide) h

theorem requirement_code_injective : Function.Injective CalendarRequirement.code := by
  intro a b h
  cases a <;> cases b <;> first | rfl | cases h

/-- A requirement is one byte, its code. -/
theorem requirementValue_inj {a b : CalendarRequirement}
    (h : bigEndian 1 a.code = bigEndian 1 b.code) : a = b :=
  codeValue_inj requirement_code_injective (fun a => by cases a <;> decide) h

/-! ### Parts of an input -/

/-- An owner is its two identifiers. -/
theorem owner_eq {a b : OwnerRef} (htenant : a.tenantId = b.tenantId)
    (howner : a.ownerId = b.ownerId) :
    a = b := by
  cases a
  cases b
  subst htenant howner
  rfl

/-- A time is its instant, its zone and its date. -/
theorem marketTime_eq {a b : MarketTime} (hinstant : a.instant = b.instant)
    (hzone : a.marketTimezone = b.marketTimezone)
    (hdate : a.localTradingDate = b.localTradingDate) : a = b := by
  cases a
  cases b
  subst hinstant hzone hdate
  rfl

/-- There is one convention for counting days. -/
theorem dayCount_eq (a b : DayCountConvention) : a = b := by
  cases a
  cases b
  rfl

/-- There is one convention for days without business. -/
theorem businessDay_eq (a b : BusinessDayConvention) : a = b := by
  cases a
  cases b
  rfl

end Ficant.Analytics
