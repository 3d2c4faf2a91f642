import InstrumentBus.Signal.Field
import InstrumentBus.Dictionary.Node
import InstrumentBus.Storage.Folder
import InstrumentBus.Main
import InstrumentBus.Proofs.Signal.Reception
import InstrumentBus.Proofs.Signal.Holder
import InstrumentBus.Proofs.Signal.Convergence
import InstrumentBus.Proofs.Signal.Succession
import InstrumentBus.Proofs.Dictionary.Ingest
import InstrumentBus.Proofs.Dictionary.Registration
import InstrumentBus.Proofs.Dictionary.SingleSource
import InstrumentBus.Proofs.Wire.Lattice
import InstrumentBus.Proofs.Dictionary.Call
import InstrumentBus.Proofs.Dictionary.Isolation
import InstrumentBus.Proofs.Dictionary.History
import InstrumentBus.Proofs.Dictionary.Resumption
import InstrumentBus.Proofs.Catalog.Coherent
import InstrumentBus.Proofs.Catalog.Registry
import InstrumentBus.Proofs.Signal.Canonical
import InstrumentBus.Proofs.Dictionary.Forwarding
import InstrumentBus.Proofs.Json.Keys
import InstrumentBus.Proofs.SignalList.Agreement
import InstrumentBus.Proofs.Dictionary.Catalogued
import InstrumentBus.Proofs.Command.Decoding
import InstrumentBus.Proofs.Text.Hex
import InstrumentBus.Proofs.Command.RoundTrip
import InstrumentBus.Proofs.Command.Replaying
import InstrumentBus.Proofs.Command.Blame
import InstrumentBus.Proofs.Dictionary.Sealing
import InstrumentBus.Proofs.Dictionary.Stamping
import InstrumentBus.Proofs.SignalList.Acceptance
import InstrumentBus.Proofs.Wire.Quantization
import InstrumentBus.Dictionary.Table
import InstrumentBus.Proofs.Dictionary.Enrolment
import InstrumentBus.Proofs.Json.Document
import InstrumentBus.Proofs.Json.Reordering
import InstrumentBus.Proofs.SignalList.Order
import InstrumentBus.Proofs.Command.Splitting
import InstrumentBus.Proofs.Text.Lines
import InstrumentBus.Proofs.Text.Numeral
import InstrumentBus.Proofs.Command.LogReading
import InstrumentBus.Proofs.Command.Operands
import InstrumentBus.Proofs.Signal.Overflow
import InstrumentBus.Proofs.Signal.Script
import InstrumentBus.Signal.Request
import InstrumentBus.Proofs.Signal.Requests
import InstrumentBus.Proofs.Command.Tally
