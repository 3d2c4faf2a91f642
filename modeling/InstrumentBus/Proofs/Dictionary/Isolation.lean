import InstrumentBus.Proofs.Dictionary.Call

/-!
# Signals do not interfere

The calls of a run that address one signal are replied to as if there were no others, and
leave its record as if there were no others. Where the calls of each signal come in the same
order, it does not matter how those of different signals come between them.
-/

namespace InstrumentBus
namespace Dictionary

open Wire Signal

variable {d e : Dictionary} {i : Identity}

/-- A run against the part of it that addresses one signal, from dictionaries that agree on
the signal. They still agree on it in the end. -/
theorem Agree.run (h : Agree i d e) (calls : List Call) :
    (d.transcript calls).filter (fun entry => entry.1.addresses i) =
        e.transcript (calls.filter (Call.addresses i)) ∧
      Agree i (d.after calls) (e.after (calls.filter (Call.addresses i))) := by
  induction calls generalizing d e with
  | nil => exact ⟨rfl, h⟩
  | cons c calls ih =>
    cases hc : c.addresses i with
    | true =>
      obtain ⟨hreply, hnext⟩ := h.call hc
      obtain ⟨hreplies, hlast⟩ := ih hnext
      simp only [List.filter_cons, transcript, hc, if_true, hreply, hreplies, true_and]
      exact hlast
    | false =>
      simp only [List.filter_cons, transcript, hc, Bool.false_eq_true, if_false]
      exact ih ((agree_call hc).trans h)

theorem WellFormed.records_eq (hd : d.WellFormed) :
    d.records = d.identities.filterMap d.record? := by
  have hfound : ∀ r ∈ d.records, (d.record? ∘ Record.identity) r = some r := by
    intro r hr
    exact hd.record?_of_mem hr
  rw [identities, List.filterMap_map, List.filterMap_congr hfound, List.filterMap_some]

theorem WellFormed.ext (hd : d.WellFormed) (he : e.WellFormed) (hc : d.config = e.config)
    (hi : d.identities = e.identities) (hr : d.record? = e.record?) : d = e := by
  have hrecords : d.records = e.records := by
    rw [hd.records_eq, he.records_eq, hi, hr]
  obtain ⟨config, records⟩ := d
  obtain ⟨config', records'⟩ := e
  congr

/-- Of every run, the calls that address one signal, with the replies to them, are what they
are in the run of these calls alone, and so is the record of the signal in the end. Runs in
which the calls of each signal come in the same order end in the same dictionary. -/
theorem signals_do_not_interfere {d : Dictionary} (hd : d.Reachable) :
    (∀ (i : Identity) (calls : List Call),
      (d.transcript calls).filter (fun entry => entry.1.addresses i) =
          d.transcript (calls.filter (Call.addresses i)) ∧
        (d.after calls).record? i = (d.after (calls.filter (Call.addresses i))).record? i) ∧
    ∀ calls calls' : List Call,
      (∀ i, calls.filter (Call.addresses i) = calls'.filter (Call.addresses i)) →
        d.after calls = d.after calls' := by
  have hrun (i : Identity) (calls : List Call) := (Agree.refl i d).run calls
  refine ⟨?_, ?_⟩
  · intro i calls
    exact ⟨(hrun i calls).1, (hrun i calls).2.record⟩
  · intro calls calls' hsame
    have hsignals := sameSignals_after d calls
    have hsignals' := sameSignals_after d calls'
    refine (hd.after calls).wellFormed.ext (hd.after calls').wellFormed ?_ ?_ ?_
    · rw [hsignals.config, hsignals'.config]
    · rw [hsignals.identities, hsignals'.identities]
    · funext i
      rw [(hrun i calls).2.record, hsame i, ← (hrun i calls').2.record]

/-- A datagram of the integer signal of the sample dictionary, and one of its byte string. -/
def sampleCalls : List Call :=
  [⟨5, .ingest (Reader.ofBytes (sampleSealed (sampleDatagram 3 0x85 100 42)))⟩,
    ⟨6, .ingest (Reader.ofBytes (sampleSealed (Header.bytes ⟨3, ⟨0x85⟩, ⟨10, 21⟩, 100⟩ ++
      [0, 0, 0, 2, 1, 2])))⟩]

theorem sampleCalls_commute :
    sampleDictionary.Reachable ∧
    sampleDictionary.after sampleCalls = sampleDictionary.after sampleCalls.reverse ∧
    (sampleDictionary.after sampleCalls.reverse).records.map (·.payload) =
      [.integer 42, .buffer [1, 2]] := by
  have hnames : sampleCalls.map (·.request.addressed?) = [some ⟨10, 20⟩, some ⟨10, 21⟩] := by
    decide +kernel
  refine ⟨sampleDictionary_reachable, ?_, by decide +kernel⟩
  apply (signals_do_not_interfere sampleDictionary_reachable).2
  intro i
  simp only [sampleCalls, List.map_cons, List.map_nil, List.cons.injEq, and_true] at hnames
  obtain ⟨hfirst, hsecond⟩ := hnames
  by_cases h20 : (⟨10, 20⟩ : Identity) = i
  · subst h20
    simp [sampleCalls, Call.addresses, hfirst, hsecond]
  · simp [sampleCalls, List.filter_cons, Call.addresses, hfirst, hsecond, h20]

end Dictionary
end InstrumentBus
