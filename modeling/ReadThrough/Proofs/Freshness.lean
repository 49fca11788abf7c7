import Mathlib.Algebra.Order.Ring.Int
import Mathlib.Tactic.Linarith
import ReadThrough.Entry
import ReadThrough.Stamp
/-!
# Proofs: freshness in exact arithmetic

Instants are exact to the nanosecond, timestamps and ages to the millisecond, and a limit is
compared in whole milliseconds as well. After the epoch all of them are rounded down, so an age can
come out less than a millisecond too low and a limit less than a millisecond too strict. The one
makes up for the other: what is fresh by its timestamps is younger than the limit to the
nanosecond, and what is younger by two milliseconds is fresh (`isFresh_between_instants`).

An age is clamped to the ends of its word, a limit can reach far beyond them. Only where both do
does this show, and then the entry is fresh; freshness never comes back with time, and is never lost
by a later timestamp or a laxer limit (`isFresh_exact`).
-/

namespace ReadThrough

namespace Duration

/-- A longer duration has no fewer whole milliseconds. -/
theorem wholeMillis_mono {d d' : Duration} (h : d.totalNanos ≤ d'.totalNanos) :
    d.wholeMillis ≤ d'.wholeMillis := by
  have hbetween : d.wholeMillis * 1000000 < (d'.wholeMillis + 1) * 1000000 :=
    calc d.wholeMillis * 1000000 ≤ d.totalNanos := d.wholeMillis_le.1
      _ ≤ d'.totalNanos := h
      _ < (d'.wholeMillis + 1) * 1000000 := d'.wholeMillis_le.2
  exact Nat.lt_succ_iff.mp (Nat.lt_of_mul_lt_mul_right hbetween)

/-- The milliseconds of every duration fit a word of 128 bits. -/
theorem wholeMillis_lt (d : Duration) : d.wholeMillis < 2 ^ 128 := by
  have hseconds := d.seconds.toNat_lt
  have hrest := d.nanos_lt
  calc d.seconds.toNat * 1000 + d.nanos / 1000000 < 2 ^ 64 * 1000 + 1000 := by omega
    _ ≤ 2 ^ 128 := by decide

/-- A limit allows all that another one allows: it is longer, or there is none. -/
inductive Relaxes : Option Duration → Option Duration → Prop where
  | absent (limit : Option Duration) : Relaxes limit none
  | longer {limit limit' : Duration} (h : limit.totalNanos ≤ limit'.totalNanos) :
      Relaxes (some limit) (some limit')

end Duration

namespace Stamp

/-- A number that is clamped into 64 bits stays what it is between the bounds, and is the nearer
bound outside. -/
theorem toInt_ofIntClamp (n : Int) :
    (Int64.ofIntClamp n).toInt = max (-2 ^ 63) (min (2 ^ 63 - 1) n) := by
  have hmin := Int64.toInt_minValue
  have hmax := Int64.toInt_maxValue
  unfold Int64.ofIntClamp
  split
  next hlow =>
    split
    next hhigh => rw [Int64.toInt_ofIntLE]; omega
    next hhigh => omega
  next hlow => omega

/-- The age is the difference of the stamps, clamped into 64 bits. -/
theorem toInt_age (now stamp : Stamp) :
    (age now stamp).toInt = max (-2 ^ 63) (min (2 ^ 63 - 1) (now.toInt - stamp.toInt)) :=
  toInt_ofIntClamp _

/-! ## The timestamp of an instant -/

/-- An instant since the epoch is stamped with its whole milliseconds. -/
theorem toInt_ofNanos_of_nonneg {nanos : Int} (h : 0 ≤ nanos) :
    (ofNanos nanos).toInt = min (2 ^ 63 - 1) (nanos / 1000000) := by
  simp only [ofNanos, ofMillis?, if_pos h]
  split
  next hfits => rw [Option.getD_some, Int64.toInt_ofNat_of_lt hfits]; omega
  next hfits => rw [Option.getD_none, Int64.toInt_maxValue]; omega

/-- An instant before the epoch is stamped with its whole milliseconds, rounded towards the epoch.
-/
theorem toInt_ofNanos_of_neg {nanos : Int} (h : nanos < 0) :
    (ofNanos nanos).toInt = max (-2 ^ 63) (-(-nanos / 1000000)) := by
  simp only [ofNanos, ofMillis?, if_neg (Int.not_le.mpr h)]
  split
  next hfits =>
    -- a positive word has its negative, the least word is never negated
    rw [Option.elim_some, Int64.toInt_neg, Int64.toInt_ofNat_of_lt hfits, Int.bmod_eq_of_le]
      <;> omega
  next hfits => rw [Option.elim_none, Int64.toInt_minValue]; omega

/-- The distance from the epoch in milliseconds, truncated toward zero and clamped to the word. -/
theorem toInt_ofNanos (nanos : Int) :
    (ofNanos nanos).toInt = max (-2 ^ 63) (min (2 ^ 63 - 1) (nanos.tdiv 1000000)) := by
  rcases lt_or_ge nanos 0 with hneg | hpos
  · have htrunc : nanos.tdiv 1000000 = -(-nanos / 1000000) := by
      rw [← Int.tdiv_eq_ediv_of_nonneg (by omega), Int.neg_tdiv, Int.neg_neg]
    rw [toInt_ofNanos_of_neg hneg, htrunc]
    omega
  · rw [toInt_ofNanos_of_nonneg hpos, Int.tdiv_eq_ediv_of_nonneg hpos]
    omega

/-- A later instant has no earlier stamp. -/
theorem ofNanos_le_ofNanos {early late : Int} (h : early ≤ late) :
    ofNanos early ≤ ofNanos late := by
  rw [Int64.le_iff_toInt_le]
  rcases lt_or_ge early 0 with hearly | hearly <;> rcases lt_or_ge late 0 with hlate | hlate
  · rw [toInt_ofNanos_of_neg hearly, toInt_ofNanos_of_neg hlate]; omega
  · rw [toInt_ofNanos_of_neg hearly, toInt_ofNanos_of_nonneg hlate]; omega
  · omega
  · rw [toInt_ofNanos_of_nonneg hearly, toInt_ofNanos_of_nonneg hlate]; omega

/-! ## The age between two instants -/

/-- Between two instants after the epoch nothing is clamped: the age is what the rounded distances
from the epoch differ by. -/
theorem toInt_age_ofNanos {early late : Int} (hearly : 0 ≤ early) (hle : early ≤ late)
    (hfits : late / 1000000 < 2 ^ 63) :
    (age (ofNanos late) (ofNanos early)).toInt = late / 1000000 - early / 1000000 := by
  rw [toInt_age, toInt_ofNanos_of_nonneg hearly,
    toInt_ofNanos_of_nonneg (Int.le_trans hearly hle)]
  omega

/-- Rounding both ends loses less than a millisecond in either direction. -/
theorem age_ofNanos_bounds {early late : Int} (hearly : 0 ≤ early) (hle : early ≤ late)
    (hfits : late / 1000000 < 2 ^ 63) :
    late - early < ((age (ofNanos late) (ofNanos early)).toInt + 1) * 1000000 ∧
      ((age (ofNanos late) (ofNanos early)).toInt - 1) * 1000000 < late - early := by
  rw [toInt_age_ofNanos hearly hle hfits]
  omega

end Stamp

namespace Entry

variable {V : Type}

/-- A stamped entry is fresh exactly if its age is below the whole milliseconds of the limit. -/
theorem isFresh_stamped (value : V) (stamp now : Stamp) (limit : Duration) :
    (stamped value stamp).isFresh (some limit) now = true ↔
      (Stamp.age now stamp).toInt < limit.wholeMillis := by
  simp [isFresh, stamped]

/-- An entry stamped at one instant and judged at a later one, both after the epoch and within the
word: if it is fresh, then less time than the limit has passed, to the nanosecond; and as long as
the limit is two milliseconds away it is fresh. All this rests on timestamps that never run against
the instants, on either side of the epoch and at both ends of the word. -/
theorem isFresh_between_instants (value : V) :
    (∀ (early late : Int) (limit : Duration), 0 ≤ early → early ≤ late →
        late / 1000000 < 2 ^ 63 →
        ((stamped value (Stamp.ofNanos early)).isFresh (some limit) (Stamp.ofNanos late) = true →
          late - early < limit.totalNanos) ∧
        (late - early + 2000000 ≤ limit.totalNanos →
          (stamped value (Stamp.ofNanos early)).isFresh (some limit)
            (Stamp.ofNanos late) = true)) ∧
      (∀ early late : Int, early ≤ late → Stamp.ofNanos early ≤ Stamp.ofNanos late) ∧
      ∀ nanos : Int, (Stamp.ofNanos nanos).toInt =
        max (-2 ^ 63) (min (2 ^ 63 - 1) (nanos.tdiv 1000000)) := by
  refine ⟨fun early late limit hearly hle hfits => ?_, fun _ _ => Stamp.ofNanos_le_ofNanos,
    Stamp.toInt_ofNanos⟩
  have ⟨habove, hbelow⟩ := Stamp.age_ofNanos_bounds hearly hle hfits
  have ⟨hwhole, hexact⟩ := limit.wholeMillis_le
  rw [isFresh_stamped]
  generalize (Stamp.age (Stamp.ofNanos late) (Stamp.ofNanos early)).toInt = age at habove hbelow ⊢
  constructor
  · intro hfresh
    calc late - early < (age + 1) * 1000000 := habove
      _ ≤ limit.wholeMillis * 1000000 := by omega
      _ ≤ limit.totalNanos := by exact_mod_cast hwhole
  · intro hsoon
    omega

/-- Stored at the epoch and judged two milliseconds later but for a nanosecond: fresh within a limit
of two milliseconds, from which only that nanosecond is left, and surely within one of four. -/
theorem isFresh_between_instants_edge :
    (1999999 : Int) - 0 < (Duration.ofMillis 2).totalNanos ∧
      (stamped () (Stamp.ofNanos 0)).isFresh (some (Duration.ofMillis 4))
        (Stamp.ofNanos 1999999) = true := by
  have hbetween := (isFresh_between_instants ()).1 0 1999999
  have hfresh : (stamped () (Stamp.ofNanos 0)).isFresh (some (Duration.ofMillis 2))
      (Stamp.ofNanos 1999999) = true := by decide +kernel
  exact ⟨(hbetween (Duration.ofMillis 2) (by decide) (by decide) (by decide)).1 hfresh,
    (hbetween (Duration.ofMillis 4) (by decide) (by decide) (by decide)).2 (by decide)⟩

/-! ## Freshness over all words -/

section Exact

variable {value : V} {e : Entry V} {stamp now later : Stamp} {limit : Duration}
  {maxAge maxAge' : Option Duration}

/-- Unless the limit and the age are both beyond the word, clamping the age does not show. -/
theorem isFresh_stamped_of_fits
    (h : (limit.wholeMillis : Int) ≤ 2 ^ 63 - 1 ∨ now.toInt - stamp.toInt ≤ 2 ^ 63 - 1) :
    (stamped value stamp).isFresh (some limit) now =
      decide (now.toInt - stamp.toInt < limit.wholeMillis) := by
  rw [Bool.eq_iff_iff, decide_eq_true_iff, isFresh_stamped, Stamp.toInt_age]
  omega

/-- An entry is fresh under every limit that 64 bits cannot hold. -/
theorem isFresh_stamped_of_beyond (hlimit : 2 ^ 63 - 1 < (limit.wholeMillis : Int)) :
    (stamped value stamp).isFresh (some limit) now = true := by
  rw [isFresh_stamped, Stamp.toInt_age]
  omega

/-- What is fresh was fresh before. -/
theorem isFresh_of_le (hle : now ≤ later) (hfresh : e.isFresh maxAge later = true) :
    e.isFresh maxAge now = true := by
  obtain ⟨value, stamp⟩ := e
  rw [Int64.le_iff_toInt_le] at hle
  cases maxAge with
  | none => rfl
  | some limit =>
    cases stamp with
    | none => exact hfresh
    | some stamp =>
      have hlater := (isFresh_stamped value stamp later limit).mp hfresh
      apply (isFresh_stamped value stamp now limit).mpr
      rw [Stamp.toInt_age] at hlater ⊢
      omega

/-- An entry that is stored later, or at a time that is known at last, stays fresh. -/
theorem isFresh_restamped (hlater : ∀ stamp ∈ e.stamp, stamp ≤ later)
    (hfresh : e.isFresh maxAge now = true) :
    ({ e with stamp := some later } : Entry V).isFresh maxAge now = true := by
  obtain ⟨value, stamp⟩ := e
  cases maxAge with
  | none => rfl
  | some limit =>
    cases stamp with
    | none => cases hfresh
    | some stamp =>
      have hle := hlater stamp rfl
      rw [Int64.le_iff_toInt_le] at hle
      have hyoung := (isFresh_stamped value stamp now limit).mp hfresh
      apply (isFresh_stamped value later now limit).mpr
      rw [Stamp.toInt_age] at hyoung ⊢
      omega

/-- An entry that is fresh under a limit is fresh under one that allows more. -/
theorem isFresh_relaxed (hrelaxes : Duration.Relaxes maxAge maxAge')
    (hfresh : e.isFresh maxAge now = true) : e.isFresh maxAge' now = true := by
  obtain ⟨value, stamp⟩ := e
  cases hrelaxes with
  | absent => rfl
  | @longer limit limit' hlonger =>
    have hmillis := Duration.wholeMillis_mono hlonger
    cases stamp with
    | none => cases hfresh
    | some stamp =>
      have hyoung := (isFresh_stamped value stamp now limit).mp hfresh
      apply (isFresh_stamped value stamp now limit').mpr
      omega

end Exact

/-- Freshness compares the exact age with the limit, unless both are beyond the word: within a limit
that is, every stamped entry is fresh. The age is clamped and never wraps, and the limit fits its
word, so nothing overflows. And for every entry, stamped or not: what is no longer fresh never is
again, and neither a later timestamp nor a laxer limit takes freshness away. -/
theorem isFresh_exact :
    (∀ (value : V) (stamp now : Stamp) (limit : Duration),
        ((limit.wholeMillis : Int) ≤ 2 ^ 63 - 1 ∨ now.toInt - stamp.toInt ≤ 2 ^ 63 - 1 →
          (stamped value stamp).isFresh (some limit) now =
            decide (now.toInt - stamp.toInt < limit.wholeMillis)) ∧
        (2 ^ 63 - 1 < (limit.wholeMillis : Int) →
          (stamped value stamp).isFresh (some limit) now = true)) ∧
      (∀ stamp now : Stamp, (Stamp.age now stamp).toInt =
        max (-2 ^ 63) (min (2 ^ 63 - 1) (now.toInt - stamp.toInt))) ∧
      (∀ limit : Duration, limit.wholeMillis < 2 ^ 128) ∧
      (∀ (e : Entry V) (maxAge : Option Duration) (now later : Stamp), now ≤ later →
        e.isFresh maxAge now = false → e.isFresh maxAge later = false) ∧
      (∀ (e : Entry V) (maxAge : Option Duration) (now later : Stamp),
        (∀ stamp ∈ e.stamp, stamp ≤ later) → e.isFresh maxAge now = true →
          ({ e with stamp := some later } : Entry V).isFresh maxAge now = true) ∧
      ∀ (e : Entry V) (maxAge maxAge' : Option Duration) (now : Stamp),
        Duration.Relaxes maxAge maxAge' → e.isFresh maxAge now = true →
          e.isFresh maxAge' now = true := by
  refine ⟨fun value stamp now limit => ?_, ?_, ?_, ?_, ?_, ?_⟩
  · exact ⟨isFresh_stamped_of_fits, isFresh_stamped_of_beyond⟩
  · exact fun stamp now => Stamp.toInt_age now stamp
  · exact Duration.wholeMillis_lt
  · intro e maxAge now later hle hstale
    rw [← Bool.not_eq_true] at hstale ⊢
    exact fun hfresh => hstale (isFresh_of_le hle hfresh)
  · exact fun e maxAge now later => isFresh_restamped
  · exact fun e maxAge maxAge' now => isFresh_relaxed

/-- From one end of the word to the other, an age of `2 ^ 64 - 1` milliseconds: too old for a
millisecond, now and ever after, and fresh within the longest limit, however late it is stored. -/
theorem isFresh_exact_ends :
    let oldest : Entry Unit := stamped () Int64.minValue
    let restamped : Entry Unit := { oldest with stamp := some 0 }
    let longest : Duration := ⟨18446744073709551615, 999999999, by decide⟩
    (oldest.isFresh (some (Duration.ofMillis 1)) Int64.maxValue =
        decide (Int64.maxValue.toInt - Int64.minValue.toInt <
          (Duration.ofMillis 1).wholeMillis)) ∧
      oldest.isFresh (some longest) Int64.maxValue = true ∧
      oldest.isFresh (some (Duration.ofMillis 1)) Int64.maxValue = false ∧
      restamped.isFresh (some longest) Int64.maxValue = true ∧
      oldest.isFresh none Int64.maxValue = true := by
  intro oldest restamped longest
  obtain ⟨hexact, -, -, hstale, hlater, hlaxer⟩ := isFresh_exact (V := Unit)
  have hfresh : oldest.isFresh (some longest) Int64.maxValue = true :=
    (hexact () Int64.minValue Int64.maxValue longest).2 (by decide)
  refine ⟨?_, hfresh, ?_, ?_, ?_⟩
  · exact (hexact () Int64.minValue Int64.maxValue (Duration.ofMillis 1)).1 (.inl (by decide))
  · exact hstale oldest _ 0 Int64.maxValue (by decide) (by decide)
  · refine hlater oldest (some longest) Int64.maxValue 0 (fun stamp hstamp => ?_) hfresh
    cases hstamp
    decide
  · exact hlaxer oldest (some longest) none Int64.maxValue (.absent _) hfresh

end Entry

end ReadThrough
