import Canon.Json.Writer
import Canon.Main
import Canon.Program.Builder
import Canon.Program.Encode
import Canon.Proofs.Boundaries
import Canon.Proofs.Dangling
import Canon.Proofs.Demands
import Canon.Proofs.Discipline
import Canon.Proofs.Escapes
import Canon.Proofs.Literals
import Canon.Proofs.Margins
import Canon.Proofs.Normal
import Canon.Proofs.Positions
import Canon.Proofs.Presentation
import Canon.Proofs.Readable
import Canon.Proofs.Renaming
import Canon.Proofs.Reports
import Canon.Proofs.Stages
