import HelpAudit.Text.Fixed

/-! Lengths of time. -/

namespace HelpAudit

/-- A length of time: seconds, and nanoseconds below one second. -/
structure Duration where
  seconds : Nat
  nanoseconds : Nat
  deriving DecidableEq

/-- A length of time for readers: milliseconds below one second, thousandths below one minute, and
    minutes and seconds from there on. -/
def Duration.display (d : Duration) : String :=
  let milliseconds := d.nanoseconds / 1000000
  if d.seconds = 0 then s!"{milliseconds}ms"
  else if d.seconds < 60 then s!"{d.seconds}.{Text.padded 3 milliseconds}s"
  else s!"{d.seconds / 60}m {d.seconds % 60}s"

end HelpAudit
