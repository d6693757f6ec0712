import RoutePattern.Proofs.Options.RoundTrip
import RoutePattern.Proofs.Parser.Building
import RoutePattern.Proofs.Parser.Fragment
import RoutePattern.Proofs.Parser.Iteration
import RoutePattern.Proofs.Parser.Lifetime
import RoutePattern.Proofs.Parser.Lossless
import RoutePattern.Proofs.Pattern.Grouping
import RoutePattern.Proofs.Pattern.NormalForm
import RoutePattern.Proofs.Pattern.Prefix
import RoutePattern.Proofs.Pattern.Progress
import RoutePattern.Proofs.Pattern.Provenance
import RoutePattern.Proofs.Pattern.RegexNames
import RoutePattern.Proofs.Pattern.Shortage
import RoutePattern.Proofs.Pattern.StaticText
import RoutePattern.Proofs.Pattern.Supply
import RoutePattern.Proofs.Pattern.Trailing
import RoutePattern.Proofs.Session
