import Lifecycle.Bus
import Lifecycle.Report

/-!
# Journals

A journal collects what a component tells about itself while it runs: the events on its bus, if it
has one, and the failures it reports, either as reports or, where nobody collects them, as log
lines.
-/

namespace Lifecycle

structure Journal where
  bus : Option Bus
  receiver : Receiver := ⟨0⟩
  collects : Bool
  reports : List Report := []
  lines : List LogLine := []

namespace Journal

def start (hasBus collects : Bool) : Journal :=
  { bus := if hasBus then some (Bus.ofCapacity 65536) else none, collects }

def publish (j : Journal) (e : Event) : Journal :=
  { j with bus := j.bus.map (·.publish e) }

def report (j : Journal) (r : Report) : Journal :=
  if j.collects then { j with reports := j.reports ++ [r] }
  else { j with lines := j.lines ++ [r.logLine] }

def readEvents (j : Journal) : List Event × Journal :=
  match j.bus with
  | none => ([], j)
  | some bus =>
      let (receipts, receiver) := bus.receiveAll j.receiver
      (Receipt.events receipts, { j with receiver })

def turnPage (j : Journal) : Journal := { j with reports := [], lines := [] }

end Journal

end Lifecycle
