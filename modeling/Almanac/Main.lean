import Almanac.CommandLine.Run
import Std.Time.DateTime.Timestamp

namespace Almanac.CommandLine

def usage : String :=
  "usage: datemath [--verbose] [--json] resolve <expression>... [options]\n" ++
  "       datemath [--verbose] [--json] analyze <pattern>\n" ++
  "       datemath [--verbose] [--json] patterns <pattern> --start <instant> --end <instant>" ++
  " [options]\n" ++
  "options: --format <pattern>  --zone <zone>  --now <instant>  --now-token <token>\n"

def systemClock : IO Reading := do
  let now := (← Std.Time.Timestamp.now).toNanosecondsSinceUnixEpoch
  return .ofNanos now.val

end Almanac.CommandLine

def main (arguments : List String) : IO UInt32 := do
  match Almanac.CommandLine.Request.ofArguments arguments with
  | .help =>
    IO.print Almanac.CommandLine.usage
    return 0
  | .version =>
    IO.print Almanac.CommandLine.versionText
    return 0
  | .misuse =>
    IO.eprint Almanac.CommandLine.usage
    return 2
  | .run invocation =>
    let outcome := invocation.run (← Almanac.CommandLine.systemClock)
    IO.print outcome.output
    IO.eprint outcome.errors
    return outcome.exitCode
