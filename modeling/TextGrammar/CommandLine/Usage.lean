/-!
# Usage

What the program says about its command line, on request or beside the refusal of one.
-/

namespace TextGrammar

namespace CommandLine

/-- The form of a command line. -/
def usageText : String :=
  "usage: parlance [-h] [--origin ORIGIN] [--count COUNT] [--seed SEED]\n" ++
  "                [--tagging \x7bflat,scoped\x7d] [--max-depth MAX_DEPTH] [--english]\n" ++
  "                [--analyze | --no-analyze] [--trace-jsonl TRACE_JSONL]\n" ++
  "                [--dry-run] [--log-level LOG_LEVEL]\n" ++
  "                rules\n"

def helpText : String :=
  usageText ++
  "\nExpand text from a JSON rule book.\n" ++
  "\npositional arguments:\n" ++
  "  rules                 Path to the rule book (JSON object), or - for stdin\n" ++
  "\noptions:\n" ++
  "  -h, --help            show this help message and exit\n" ++
  "  --origin ORIGIN       Text to expand (default: #origin#)\n" ++
  "  --count COUNT         Number of expansions to produce\n" ++
  "  --seed SEED           Seed the selectors for reproducible output\n" ++
  "  --tagging \x7bflat,scoped\x7d\n" ++
  "                        Tag visibility policy (flat or scoped)\n" ++
  "  --max-depth MAX_DEPTH\n" ++
  "                        Override the recursion depth limit\n" ++
  "  --english             Install the standard English modifiers\n" ++
  "  --analyze, --no-analyze\n" ++
  "                        Run rule-book analysis after registration\n" ++
  "  --trace-jsonl TRACE_JSONL\n" ++
  "                        Write expansion events to a JSONL file\n" ++
  "  --dry-run             Register and analyse the rule book without expanding\n" ++
  "                        anything\n" ++
  "  --log-level LOG_LEVEL\n" ++
  "                        Logging level for diagnostics\n"

end CommandLine

end TextGrammar
