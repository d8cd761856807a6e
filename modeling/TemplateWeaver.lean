import TemplateWeaver.Assembly.Codec
import TemplateWeaver.Code.Session
import TemplateWeaver.Json.Printer
import TemplateWeaver.Weave.Session
import TemplateWeaver.Proofs.Assembly.RoundTrip
import TemplateWeaver.Proofs.Assembly.Splicing
import TemplateWeaver.Proofs.Weave.Multiplicity
import TemplateWeaver.Proofs.Weave.Refinement
import TemplateWeaver.Proofs.Source.Lead
import TemplateWeaver.Proofs.Weave.Faults
import TemplateWeaver.Proofs.Weave.Depth
import TemplateWeaver.Proofs.Weave.Setup
import TemplateWeaver.Proofs.Weave.Order
import TemplateWeaver.Proofs.Markup.StartTag
import TemplateWeaver.Proofs.Assembly.Lookup
import TemplateWeaver.Proofs.Assembly.Definitions
import TemplateWeaver.Proofs.Code.History
import TemplateWeaver.Proofs.Code.Termination
import TemplateWeaver.Proofs.Weave.Acyclic
import TemplateWeaver.Proofs.Weave.FreshNames
import TemplateWeaver.Proofs.Source.Lexer
import TemplateWeaver.Proofs.Source.Blanking
import TemplateWeaver.Proofs.Source.Directive
import TemplateWeaver.Proofs.Source.Excision
import TemplateWeaver.Proofs.Source.Sweep
import TemplateWeaver.Proofs.Source.Offsets
import TemplateWeaver.Proofs.Assembly.Insertion
import TemplateWeaver.Proofs.Assembly.Diagnostics
import TemplateWeaver.Proofs.Json.MemberOrder
import TemplateWeaver.Proofs.Markup.ReadBack
import TemplateWeaver.Proofs.Assembly.UnitSchema
import TemplateWeaver.Proofs.Code.Inlining
import TemplateWeaver.Proofs.Source.Quoted
import TemplateWeaver.Proofs.Source.LibraryName
import TemplateWeaver.Proofs.Code.Indentation
import TemplateWeaver.Proofs.Weave.BoundMember
import TemplateWeaver.Proofs.Source.Restart
import TemplateWeaver.Proofs.Code.LineCount
import TemplateWeaver.Proofs.Weave.LineEnds
import TemplateWeaver.Proofs.Weave.RegionNote
