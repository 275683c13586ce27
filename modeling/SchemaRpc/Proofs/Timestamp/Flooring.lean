import SchemaRpc.Proofs.Timestamp

namespace SchemaRpc

namespace Instant

variable {t u : Instant}

/-- Nanoseconds since the start of 1970. A leap second counts as one second more. -/
def nanos (t : Instant) : Int :=
  t.seconds * 1000000000 + t.nanoseconds

theorem nanos_ofMillis (n : Int) : (ofMillis n).nanos = n * 1000000 := by
  simp only [nanos, ofMillis]
  omega

theorem millis_floor (t : Instant) :
    t.millis * 1000000 ≤ t.nanos ∧ t.nanos < (t.millis + 1) * 1000000 := by
  simp only [millis, nanos]
  omega

theorem millis_mono (h : t.nanos ≤ u.nanos) : t.millis ≤ u.millis := by
  have := t.millis_floor
  have := u.millis_floor
  omega

theorem millis_truncated (t : Instant) : t.truncated.millis = t.millis := by
  rw [truncated]
  split
  · exact millis_ofMillis _
  · rfl

theorem nanos_truncated_le (t : Instant) : t.truncated.nanos ≤ t.nanos := by
  rw [truncated]
  split
  · rw [nanos_ofMillis]
    exact t.millis_floor.1
  · exact Int.le_refl _

theorem truncated_mono (h : t.nanos ≤ u.nanos) : t.truncated.nanos ≤ u.truncated.nanos := by
  have hm := millis_mono h
  by_cases hu : u.millis ≤ lastMillis
  · rw [truncated, truncated, if_pos hu, if_pos (Int.le_trans hm hu), nanos_ofMillis, nanos_ofMillis]
    omega
  · rw [truncated.eq_def u, if_neg hu]
    exact Int.le_trans t.nanos_truncated_le h

end Instant

namespace Timestamp

def NotAfter (a b : Timestamp) : Prop :=
  a.seconds < b.seconds ∨ a.seconds = b.seconds ∧ a.nanos ≤ b.nanos

def InRange (a : Timestamp) : Prop :=
  (minSeconds ≤ a.seconds ∧ a.seconds ≤ maxSeconds) ∧ 0 ≤ a.nanos ∧ a.nanos ≤ maxNanos

variable {a b : Timestamp} {t u : Instant}

theorem millis_ofInstant (t : Instant) :
    (ofInstant t).seconds * 1000 + (ofInstant t).nanos / 1000000 = t.millis := by
  simp only [ofInstant]
  omega

theorem nanos_ofInstant (t : Instant) :
    0 ≤ (ofInstant t).nanos ∧ (ofInstant t).nanos ≤ 999000000 ∧ 1000000 ∣ (ofInstant t).nanos := by
  simp only [ofInstant]
  omega

theorem ofInstant_truncated (t : Instant) : ofInstant t.truncated = ofInstant t := by
  rw [ofInstant, ofInstant, Instant.millis_truncated]

theorem notAfter_ofInstant (h : t.nanos ≤ u.nanos) : (ofInstant t).NotAfter (ofInstant u) := by
  have := Instant.millis_mono h
  simp only [NotAfter, ofInstant]
  omega

theorem inRange_iff :
    a.InRange ↔ ¬(a.seconds < minSeconds ∨ maxSeconds < a.seconds) ∧
      ¬(a.nanos < 0 ∨ maxNanos < a.nanos) := by
  rw [InRange]
  omega

theorem toInstant_eq_ok_iff :
    a.toInstant = .ok t ↔ a.InRange ∧ t = .ofMillis (a.seconds * 1000 + a.nanos / 1000000) := by
  by_cases hr : a.InRange
  · obtain ⟨hs, hn⟩ := inRange_iff.1 hr
    rw [toInstant, if_neg hs, if_neg hn, Except.ok.injEq, eq_comm]
    simp only [hr, true_and]
  · simp only [hr, false_and, iff_false]
    intro h
    rw [toInstant] at h
    split at h
    · cases h
    · next hs =>
        split at h
        · cases h
        · next hn => exact hr (inRange_iff.2 ⟨hs, hn⟩)

theorem InRange.inCalendar (h : a.InRange) :
    (Instant.ofMillis (a.seconds * 1000 + a.nanos / 1000000)).InCalendar := by
  obtain ⟨hs, hn⟩ := h
  simp only [minSeconds, maxSeconds, maxNanos] at hs hn
  simp only [Instant.InCalendar, Instant.ofMillis]
  omega

theorem ofInstant_of_inRange (h : a.InRange) :
    ofInstant (.ofMillis (a.seconds * 1000 + a.nanos / 1000000)) =
      ⟨a.seconds, a.nanos / 1000000 * 1000000⟩ := by
  obtain ⟨-, hn⟩ := h
  simp only [maxNanos] at hn
  rw [ofInstant, Instant.millis_ofMillis, Timestamp.mk.injEq]
  omega

theorem nanos_le_of_notAfter (ha : a.toInstant = .ok t) (hb : b.toInstant = .ok u)
    (h : a.NotAfter b) : t.nanos ≤ u.nanos := by
  obtain ⟨⟨-, hna⟩, rfl⟩ := toInstant_eq_ok_iff.1 ha
  obtain ⟨⟨-, hnb⟩, rfl⟩ := toInstant_eq_ok_iff.1 hb
  simp only [maxNanos] at hna hnb
  rw [Instant.nanos_ofMillis, Instant.nanos_ofMillis]
  rcases h with h | h <;> omega

theorem word_of_inRange {seconds : Int64} {nanos : Int32}
    (h : InRange ⟨seconds.toInt, nanos.toInt⟩) :
    (seconds * 1000).toInt = seconds.toInt * 1000 ∧
      (seconds * 1000 + nanos.toInt64 / 1000000).toInt =
        seconds.toInt * 1000 + nanos.toInt / 1000000 := by
  obtain ⟨hs, hn⟩ := h
  simp only [minSeconds, maxSeconds, maxNanos] at hs hn
  have hmul : (seconds * 1000).toInt = seconds.toInt * 1000 := by
    rw [Int64.toInt_mul]
    exact Int.bmod_eq_of_le (by simp; omega) (by simp; omega)
  have hdiv : (nanos.toInt64 / 1000000).toInt = nanos.toInt / 1000000 := by
    rw [Int64.toInt_div, Int32.toInt_toInt64, Int.tdiv_eq_ediv_of_nonneg hn.1]
    exact Int.bmod_eq_of_le (by simp; omega) (by simp; omega)
  refine ⟨hmul, ?_⟩
  rw [Int64.toInt_add, hmul, hdiv]
  exact Int.bmod_eq_of_le (by simp; omega) (by simp; omega)

theorem conversions_exact :
    (∀ t : Instant,
      (0 ≤ (ofInstant t).nanos ∧ (ofInstant t).nanos ≤ 999000000 ∧ 1000000 ∣ (ofInstant t).nanos) ∧
      (((ofInstant t).seconds * 1000 + (ofInstant t).nanos / 1000000) * 1000000 ≤ t.nanos ∧
        t.nanos < ((ofInstant t).seconds * 1000 + (ofInstant t).nanos / 1000000 + 1) * 1000000) ∧
      ofInstant t.truncated = ofInstant t ∧ t.truncated.truncated = t.truncated) ∧
    (∀ (seconds : Int64) (nanos : Int32),
      ((∃ t, toInstant ⟨seconds.toInt, nanos.toInt⟩ = .ok t) ↔
        (minSeconds ≤ seconds.toInt ∧ seconds.toInt ≤ maxSeconds) ∧
          0 ≤ nanos.toInt ∧ nanos.toInt ≤ 999999999) ∧
      ∀ t, toInstant ⟨seconds.toInt, nanos.toInt⟩ = .ok t →
        (seconds * 1000).toInt = seconds.toInt * 1000 ∧
        t.millis = (seconds * 1000 + nanos.toInt64 / 1000000).toInt ∧
        t.InCalendar ∧
        ofInstant t = ⟨seconds.toInt, nanos.toInt / 1000000 * 1000000⟩) ∧
    (∀ (seconds : SafeInt) (nanos : Int32),
      decode (encode ⟨seconds.toInt, nanos.toInt⟩) = .ok ⟨seconds.toInt, nanos.toInt⟩) ∧
    (∀ t u : Instant, t.nanos ≤ u.nanos →
      (ofInstant t).NotAfter (ofInstant u) ∧ t.truncated.nanos ≤ u.truncated.nanos) ∧
    ∀ (a b : Timestamp) (t u : Instant), toInstant a = .ok t → toInstant b = .ok u →
      a.NotAfter b → t.nanos ≤ u.nanos := by
  refine ⟨fun t => ⟨nanos_ofInstant t, ?_, ofInstant_truncated t, t.truncated_truncated⟩,
    fun seconds nanos => ⟨?_, fun t h => ?_⟩, fun seconds nanos => ?_,
    fun t u h => ⟨notAfter_ofInstant h, Instant.truncated_mono h⟩,
    fun a b t u ha hb h => nanos_le_of_notAfter ha hb h⟩
  · rw [millis_ofInstant]
    exact t.millis_floor
  · exact ⟨fun ⟨t, h⟩ => (toInstant_eq_ok_iff.1 h).1, fun h => ⟨_, toInstant_eq_ok_iff.2 ⟨h, rfl⟩⟩⟩
  · obtain ⟨hr, rfl⟩ := toInstant_eq_ok_iff.1 h
    obtain ⟨hmul, hmillis⟩ := word_of_inRange hr
    refine ⟨hmul, ?_, hr.inCalendar, ofInstant_of_inRange hr⟩
    rw [Instant.millis_ofMillis, hmillis]
  · have hl := nanos.le_toInt
    have hh := nanos.toInt_lt
    exact decode_encode ⟨seconds.lower, seconds.upper⟩ ⟨by simpa using hl, by simpa using hh⟩

theorem conversions_exact_edges :
    ofInstant ⟨-1, 499999999, by decide⟩ = ⟨-1, 499000000⟩ ∧
      1000000 ∣ (ofInstant ⟨-1, 499999999, by decide⟩).nanos ∧
      (ofInstant ⟨-1, 499999999, by decide⟩).NotAfter (ofInstant ⟨-1, 1500000000, by decide⟩) ∧
      (∃ t, toInstant ⟨253402300799, 999999999⟩ = .ok t) ∧
      ofInstant (.ofMillis 253402300799999) = ⟨253402300799, 999000000⟩ ∧
      ¬(∃ t, toInstant ⟨-62135596801, 0⟩ = .ok t) ∧
      decode (encode ⟨-9007199254740991, -1⟩) = .ok ⟨-9007199254740991, -1⟩ := by
  obtain ⟨floor, back, body, mono, -⟩ := conversions_exact
  refine ⟨by decide, ?_, ?_, ?_, ?_, ?_, ?_⟩
  · exact (floor ⟨-1, 499999999, by decide⟩).1.2.2
  · exact (mono _ _ (by decide)).1
  · exact (back 253402300799 999999999).1.2 (by decide)
  · exact ((back 253402300799 999999999).2 (.ofMillis 253402300799999) rfl).2.2.2
  · exact fun h => absurd ((back (-62135596801) 0).1.1 h) (by decide)
  · exact body ⟨-9007199254740991, by decide, by decide⟩ (-1)

end Timestamp

end SchemaRpc
