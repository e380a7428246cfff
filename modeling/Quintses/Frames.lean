import Mathlib.Data.List.Basic

/-! A receiver that handles one frame of a sequence after another until a
round gives up. -/

/-- How a round ends: with a message and what follows its frame, by giving up
in the ordinary way, or with an error that the round does not handle. -/
inductive Outcome (β μ ε : Type)
  | next (msg : μ) (rest : List β)
  | stop
  | escaped (e : ε)

namespace Frames

variable {β μ ν ε : Type}

/-- The messages received, and what was left unread or the error that escaped;
`none` if the bound on the rounds is hit. -/
def receive (round : List β → Outcome β μ ε) : Nat → List β → Option (List μ × Except ε (List β))
  | 0, _ => none
  | fuel + 1, s =>
    match round s with
    | .next msg rest => (receive round fuel rest).map (fun r => (msg :: r.1, r.2))
    | .stop => some ([], .ok s)
    | .escaped e => some ([], .error e)

/-- Complete frames followed by an ending that no frame starts. -/
inductive Framed (frame last : List β → Prop) : List β → Prop
  | last {s : List β} : last s → Framed frame last s
  | cons {bs rest : List β} : frame bs → Framed frame last rest → Framed frame last (bs ++ rest)

variable {round : List β → Outcome β μ ε}

theorem receive_next {s rest : List β} {msg : μ} (h : round s = .next msg rest) (fuel : Nat) :
    receive round (fuel + 1) s = (receive round fuel rest).map (fun r => (msg :: r.1, r.2)) := by
  simp [receive, h]

theorem receive_stop {s : List β} (h : round s = .stop) (fuel : Nat) :
    receive round (fuel + 1) s = some ([], .ok s) := by
  simp [receive, h]

theorem receive_escaped {s : List β} {e : ε} (h : round s = .escaped e) (fuel : Nat) :
    receive round (fuel + 1) s = some ([], .error e) := by
  simp [receive, h]

/-- A stream of encoded messages comes back in full exactly when the receiver
handles each of them. -/
theorem receive_flatMap_iff (enc : ν → List β) (dec : ν → μ) (good : ν → Prop) {ms : List ν}
    (hgood : ∀ m ∈ ms, good m → ∀ rest, round (enc m ++ rest) = .next (dec m) rest)
    (hbad : ∀ m ∈ ms, ¬ good m → ∀ rest, ∃ e, round (enc m ++ rest) = .escaped e)
    (hnil : round [] = .stop) {fuel : Nat} (hfuel : ms.length < fuel) :
    receive round fuel (ms.flatMap enc) = some (ms.map dec, .ok []) ↔ ∀ m ∈ ms, good m := by
  induction ms generalizing fuel with
  | nil =>
    obtain ⟨n, rfl⟩ : ∃ n, fuel = n + 1 := ⟨fuel - 1, by simp at hfuel; omega⟩
    simp [receive_stop hnil]
  | cons m ms ih =>
    obtain ⟨n, rfl⟩ : ∃ n, fuel = n + 1 := ⟨fuel - 1, by simp at hfuel; omega⟩
    have hn : ms.length < n := by simpa using hfuel
    have hih := ih (fun a ha => hgood a (List.mem_cons_of_mem m ha))
      (fun a ha => hbad a (List.mem_cons_of_mem m ha)) hn
    rw [List.flatMap_cons]
    by_cases hm : good m
    · rw [receive_next (hgood m List.mem_cons_self hm _)]
      simp only [List.map_cons, List.forall_mem_cons, hm, true_and, ← hih]
      cases hr : receive round n (ms.flatMap enc) with
      | none => simp
      | some r => simp [Prod.ext_iff]
    · obtain ⟨e, he⟩ := hbad m List.mem_cons_self hm (ms.flatMap enc)
      simp [receive_escaped he, hm]

/-- Two cuts of one list of messages at the same byte are the same cut. -/
theorem cut_eq {enc : ν → List β} (hne : ∀ m, enc m ≠ []) {p q r t : List ν} (h : p ++ r = q ++ t)
    (hsame : p.flatMap enc = q.flatMap enc) : r = t := by
  have hnil {extra : List ν} (he : extra.flatMap enc = []) : extra = [] := by
    cases extra with
    | nil => rfl
    | cons m extra => exact absurd (List.append_eq_nil_iff.mp he).1 (hne m)
  rcases List.append_eq_append_iff.mp h with ⟨extra, rfl, rfl⟩ | ⟨extra, rfl, rfl⟩
  · rw [List.flatMap_append, List.self_eq_append_right] at hsame
    rw [hnil hsame, List.nil_append]
  · rw [List.flatMap_append, List.append_right_eq_self] at hsame
    rw [hnil hsame, List.nil_append]

/-- A round takes bytes and does not look beyond the frame it takes. -/
structure Local (round : List β → Outcome β μ ε) : Prop where
  takes : ∀ s msg rest, round s = .next msg rest → rest.length < s.length
  append : ∀ s msg rest tail, round s = .next msg rest → round (s ++ tail) = .next msg (rest ++ tail)

/-- A frame that is taken from a cut stream of encoded messages is the first one. -/
theorem next_of_prefix {enc : ν → List β} {dec : ν → μ} (hlocal : Local round) {ms : List ν}
    (hround : ∀ m ∈ ms, ∀ rest, round (enc m ++ rest) = .next (dec m) rest) {s rest : List β} {msg : μ}
    (hs : s <+: ms.flatMap enc) (h : round s = .next msg rest) :
    ∃ m ms', ms = m :: ms' ∧ msg = dec m ∧ s = enc m ++ rest ∧ rest <+: ms'.flatMap enc := by
  obtain ⟨tail, htail⟩ := hs
  have hwhole := hlocal.append s msg rest tail h
  rw [htail] at hwhole
  cases ms with
  | nil =>
    have hshort := hlocal.takes s msg rest h
    rw [List.flatMap_nil, List.append_eq_nil_iff] at htail
    simp [htail.1] at hshort
  | cons m ms =>
    rw [List.flatMap_cons, hround m List.mem_cons_self] at hwhole
    obtain ⟨rfl, hrest⟩ := Outcome.next.inj hwhole
    refine ⟨m, ms, rfl, rfl, ?_, tail, hrest.symm⟩
    rw [List.flatMap_cons, hrest, ← List.append_assoc] at htail
    exact List.append_cancel_right htail

/-- However a stream of encoded messages is cut off, what is received is the
first of the messages. -/
theorem receive_prefix {enc : ν → List β} {dec : ν → μ} (hlocal : Local round) {ms : List ν}
    (hround : ∀ m ∈ ms, ∀ rest, round (enc m ++ rest) = .next (dec m) rest) {s : List β}
    (hs : s <+: ms.flatMap enc) : ∃ got later, ms = got ++ later ∧
      ∀ fuel, s.length < fuel → ∃ out, receive round fuel s = some (got.map dec, out) := by
  induction ms generalizing s with
  | nil =>
    obtain rfl := List.prefix_nil.mp hs
    refine ⟨[], [], rfl, fun fuel hfuel => ?_⟩
    obtain ⟨k, rfl⟩ : ∃ k, fuel = k + 1 := ⟨fuel - 1, by simp at hfuel; omega⟩
    cases h : round [] with
    | next msg rest => exact absurd (hlocal.takes [] msg rest h) (by simp)
    | stop => exact ⟨_, receive_stop h k⟩
    | escaped e => exact ⟨_, receive_escaped h k⟩
  | cons m ms ih =>
    cases h : round s with
    | next msg rest =>
      obtain ⟨m', ms', he, rfl, rfl, hrest⟩ := next_of_prefix hlocal hround hs h
      cases he
      obtain ⟨got, later, rfl, hgot⟩ := ih (fun a ha => hround a (List.mem_cons_of_mem m ha)) hrest
      refine ⟨m :: got, later, rfl, fun fuel hfuel => ?_⟩
      have hshort := hlocal.takes _ _ _ h
      obtain ⟨k, rfl⟩ : ∃ k, fuel = k + 1 := ⟨fuel - 1, by omega⟩
      obtain ⟨out, hout⟩ := hgot k (by omega)
      exact ⟨out, by simp [receive_next h, hout]⟩
    | stop =>
      refine ⟨[], m :: ms, rfl, fun fuel hfuel => ?_⟩
      obtain ⟨k, rfl⟩ : ∃ k, fuel = k + 1 := ⟨fuel - 1, by omega⟩
      exact ⟨_, receive_stop h k⟩
    | escaped e =>
      refine ⟨[], m :: ms, rfl, fun fuel hfuel => ?_⟩
      obtain ⟨k, rfl⟩ : ∃ k, fuel = k + 1 := ⟨fuel - 1, by omega⟩
      exact ⟨_, receive_escaped h k⟩

variable {frame last : List β → Prop}

/-- A receiver that shortens the input each round ends, and it gives up in the
ordinary way exactly on framed input. -/
theorem receive_ok_iff (hstop : ∀ s, round s = .stop ↔ last s)
    (hnext : ∀ s rest, (∃ msg, round s = .next msg rest) ↔ ∃ bs, s = bs ++ rest ∧ frame bs)
    (hpos : ∀ bs, frame bs → bs ≠ []) {fuel : Nat} {s : List β} (hfuel : s.length < fuel) :
    (∃ msgs rest, receive round fuel s = some (msgs, .ok rest)) ↔ Framed frame last s := by
  induction fuel generalizing s with
  | zero => omega
  | succ n ih =>
    have hshort {bs rest : List β} (hs : s = bs ++ rest) (hb : frame bs) : rest.length < n := by
      have := List.length_pos_iff.mpr (hpos bs hb)
      rw [hs, List.length_append] at hfuel
      omega
    constructor
    · rintro ⟨msgs, rest, hr⟩
      cases ho : round s with
      | next msg tail =>
        obtain ⟨bs, hs, hb⟩ := (hnext s tail).mp ⟨msg, ho⟩
        rw [receive_next ho] at hr
        obtain ⟨r, hr, he⟩ := Option.map_eq_some_iff.mp hr
        have htail := (ih (hshort hs hb)).mp ⟨r.1, rest, by rw [hr, ← (Prod.mk.inj he).2]⟩
        exact hs ▸ Framed.cons hb htail
      | stop => exact Framed.last ((hstop s).mp ho)
      | escaped e => simp [receive_escaped ho] at hr
    · intro hf
      cases hf with
      | last hl => exact ⟨[], s, receive_stop ((hstop s).mpr hl) n⟩
      | @cons bs rest hb hrest =>
        obtain ⟨msg, ho⟩ := (hnext (bs ++ rest) rest).mpr ⟨bs, rfl, hb⟩
        obtain ⟨msgs, tail, hr⟩ := (ih (hshort rfl hb)).mpr hrest
        exact ⟨msg :: msgs, tail, by simp [receive_next ho, hr]⟩

end Frames
